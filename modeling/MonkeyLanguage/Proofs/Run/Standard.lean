-- SUMMARY: Properties of values that a run keeps for all the values it makes.
import MonkeyLanguage.Proofs.Run.Absorption

/-!
# Standards for values

A run takes values from its code and makes others of them, by operators, look-ups and calls, and
by putting them into arrays and hashes. A standard is a property of values that all of this keeps.
If the code and the scopes meet it when a run starts, then all values meet it at every moment,
wherever they are: under a name, in a frame, among the arguments of a call or on their way as an
answer. Errors and returned values are values like all others here.
-/

namespace MonkeyLanguage

/-- The nodes inside a node that are evaluated when the node is, or when the function is called
that it makes. -/
def Node.children : Node → List Node
  | program _ statements => statements
  | letStatement _ _ value => [value]
  | returnStatement _ value => [value]
  | expressionStatement _ value => [value]
  | block _ statements => statements
  | prefixed _ _ right => [right]
  | binary _ _ left right => [left, right]
  | conditional _ condition consequence alternative => [condition, consequence, alternative]
  | function _ _ body => [body]
  | call _ callee arguments => callee :: arguments
  | array _ elements => elements
  | hash _ pairs => pairs.flatMap fun pair => [pair.1, pair.2]
  | index _ target key => [target, key]
  | _ => []

/-- A node and all nodes inside of it that may be evaluated have a property. -/
inductive Node.Throughout (good : Node → Prop) : Node → Prop where
  | intro {node : Node} :
      good node → (∀ child ∈ node.children, Throughout good child) → Throughout good node

theorem Node.Throughout.self {good : Node → Prop} {node : Node} (h : node.Throughout good) :
    good node := by
  cases h with
  | intro hnode _ => exact hnode

theorem Node.Throughout.child {good : Node → Prop} {node : Node} (h : node.Throughout good) :
    ∀ child ∈ node.children, child.Throughout good := by
  cases h with
  | intro _ hchildren => exact hchildren

/-- A property of values, with what it asks of the code and of the tables that values are made of,
and the ways in which a run keeps it. -/
structure Standard where
  value : Value → Prop
  key : HashKey → Prop
  /-- What is asked of the entries of a hash, finished or not. -/
  table : List (HashKey × Value) → Prop
  code : Node → Prop
  /-- The calls of built-in functions that the standard allows for. -/
  permits : Builtin → List Value → Prop
  children : ∀ {node}, code node → ∀ child ∈ node.children, code child
  integer : ∀ {token n}, code (.integer token n) → value (.integer n)
  string : ∀ text, value (.string text)
  boolean : ∀ b, value (.boolean b)
  null : value .null
  error : ∀ cause, value (.error cause)
  builtin : ∀ function, value (.builtin function)
  closure : ∀ {parameters body}, code body →
    ∀ identity scope, value (.closure identity parameters body scope)
  body : ∀ {identity parameters body scope}, value (.closure identity parameters body scope) →
    code body
  returned : ∀ {v}, value v → value (.returned v)
  received : ∀ {v}, value v → value v.received
  array : ∀ {elements}, (∀ element ∈ elements, value element) → value (.array elements)
  empty : table []
  insert : ∀ {entries k v}, table entries → key k → value v → table (Table.insert k v entries)
  hash : ∀ {entries}, table entries → value (.hash entries)
  hashKey : ∀ {v k}, value v → v.hashKey? = some k → key k
  prefixed : ∀ {v}, value v → ∀ operator, value (v.prefixed operator)
  binary : ∀ {left right}, value left → value right →
    ∀ operator limit, value (left.binary operator right limit)
  lookUp : ∀ {target k}, value target → value k → value (target.lookUp k)
  run : ∀ {function arguments}, permits function arguments →
    (∀ argument ∈ arguments, value argument) →
    ∀ console, value (Builtin.run function arguments console).1

namespace Standard

variable (S : Standard)

/-- What is being worked on meets the standard. -/
def Control : Control → Prop
  | .evaluate _ node => S.code node
  | .call function arguments => S.value function ∧ ∀ argument ∈ arguments, S.value argument
  | .answer value => S.value value
  | .fault _ => True

/-- The values that a frame keeps meet the standard, and so does the code that it has yet to
evaluate. -/
def Frame : Frame → Prop
  | .next _ rest => ∀ node ∈ rest, S.code node
  | .left _ _ right => S.code right
  | .right _ left => S.value left
  | .condition _ consequence alternative => S.code consequence ∧ S.code alternative
  | .callee _ arguments => ∀ node ∈ arguments, S.code node
  | .item _ collector before rest =>
    (∀ value ∈ collector.values ++ before, S.value value) ∧ ∀ node ∈ rest, S.code node
  | .key _ entries value rest =>
    S.table entries ∧ S.code value ∧ ∀ pair ∈ rest, S.code pair.1 ∧ S.code pair.2
  | .entry _ entries key rest =>
    S.table entries ∧ S.key key ∧ ∀ pair ∈ rest, S.code pair.1 ∧ S.code pair.2
  | .target _ key => S.code key
  | .index target => S.value target
  | _ => True

/-- The result of a computation, if there is one, and the scopes after it meet the standard. -/
structure Outcome (result : EStateM.Result Fault Machine Value) : Prop where
  value : ∀ value final, result = .ok value final → S.value value
  ended : ∀ value final, result = .ok value final → final.store.Holds S.value
  stopped : ∀ fault final, result = .error fault final → final.store.Holds S.value

variable {S} in
theorem Outcome.ok {value : Value} {final : Machine} (hvalue : S.value value)
    (hstore : final.store.Holds S.value) : S.Outcome (.ok value final) := by
  refine ⟨?_, ?_, nofun⟩
  · rintro _ _ ⟨⟩
    exact hvalue
  · rintro _ _ ⟨⟩
    exact hstore

variable {S} in
theorem Outcome.error {fault : Fault} {final : Machine} (hstore : final.store.Holds S.value) :
    S.Outcome (.error fault final) := by
  refine ⟨nofun, nofun, ?_⟩
  rintro _ _ ⟨⟩
  exact hstore

/-- If a built-in function is being called, the standard allows for it. -/
def Permits : MonkeyLanguage.Control → Prop
  | .call (.builtin function) arguments => S.permits function arguments
  | _ => True

theorem valueOf {store : Store} (h : store.Holds S.value) (scope : ScopeId) (name : String) :
    S.value (store.valueOf scope name) := by
  unfold Store.valueOf
  split
  case h_1 value hfound => exact h.of_find? hfound
  case h_2 =>
    split
    · exact S.builtin _
    · exact S.error _

end Standard

namespace Moment

/-- All values and all code that are around at a moment meet the standard. -/
structure Meets (S : Standard) (moment : Moment) : Prop where
  store : moment.machine.store.Holds S.value
  frames : ∀ frame ∈ moment.frames, S.Frame frame
  control : S.Control moment.control

variable {S : Standard} {host : Host} {frames : List Frame} {depth : Nat} {machine : Machine}

/-! ## Steps -/

section

variable (hstore : machine.store.Holds S.value) (hframes : ∀ frame ∈ frames, S.Frame frame)

include hstore hframes

theorem meets_answer {value : Value} (hvalue : S.value value) :
    Meets S ⟨.answer value, frames, depth, machine⟩ :=
  ⟨hstore, hframes, hvalue⟩

theorem meets_evaluate (scope : ScopeId) {node : Node} {frame : Frame} (hnode : S.code node)
    (hframe : S.Frame frame) : Meets S ⟨.evaluate scope node, frame :: frames, depth, machine⟩ :=
  ⟨hstore, List.forall_mem_cons.2 ⟨hframe, hframes⟩, hnode⟩

theorem meets_sequence (scope : ScopeId) {last : Value} (hlast : S.value last)
    {statements : List Node} (h : ∀ node ∈ statements, S.code node) :
    Meets S (sequence frames depth machine scope last statements) := by
  cases statements with
  | nil => exact meets_answer hstore hframes hlast
  | cons statement rest =>
      obtain ⟨hstatement, hrest⟩ := List.forall_mem_cons.1 h
      exact meets_evaluate hstore hframes scope hstatement hrest

theorem meets_collect (scope : ScopeId) {collector : Collector} {before : List Value}
    (hvalues : ∀ value ∈ collector.values ++ before, S.value value) {nodes : List Node}
    (h : ∀ node ∈ nodes, S.code node) :
    Meets S (collect frames depth machine scope collector before nodes) := by
  cases nodes with
  | nil =>
      cases collector with
      | arguments function => exact ⟨hstore, hframes, List.forall_mem_cons.1 hvalues⟩
      | elements => exact meets_answer hstore hframes (S.array hvalues)
  | cons node rest =>
      obtain ⟨hnode, hrest⟩ := List.forall_mem_cons.1 h
      exact meets_evaluate hstore hframes scope hnode ⟨hvalues, hrest⟩

theorem meets_gather (scope : ScopeId) {entries : List (HashKey × Value)}
    (hentries : S.table entries) {pairs : List (Node × Node)}
    (h : ∀ pair ∈ pairs, S.code pair.1 ∧ S.code pair.2) :
    Meets S (gather frames depth machine scope entries pairs) := by
  cases pairs with
  | nil => exact meets_answer hstore hframes (S.hash hentries)
  | cons pair rest =>
      obtain ⟨⟨hkey, hvalue⟩, hrest⟩ := List.forall_mem_cons.1 h
      exact meets_evaluate hstore hframes scope hkey ⟨hentries, hvalue, hrest⟩

theorem meets_otherwise (scope : ScopeId) {alternative : Node} (h : S.code alternative) :
    Meets S (otherwise frames depth machine scope alternative) := by
  cases alternative with
  | missing => exact meets_answer hstore hframes S.null
  | _ => exact meets_evaluate hstore hframes scope h trivial

theorem meets_bindNode (scope : ScopeId) (name : Node) {value : Value} (hvalue : S.value value) :
    Meets S (after frames depth machine (Eval.bindNode host scope name value)) := by
  rw [after, bindNode_eq]
  cases name.boundName with
  | error fault => exact ⟨hstore, hframes, trivial⟩
  | ok name =>
      rw [← store_trace host.traceLevel (.bound name value)] at hstore
      exact ⟨hstore.bind scope name hvalue, hframes, hvalue⟩

theorem meets_start (scope : ScopeId) {node : Node} (h : S.code node) :
    Meets S (start frames depth machine scope node) := by
  have hchildren := S.children h
  cases node with
  | program token statements =>
      have hreceive : ∀ frame ∈ Frame.receive :: frames, S.Frame frame :=
        List.forall_mem_cons.2 ⟨trivial, hframes⟩
      exact meets_sequence hstore hreceive scope S.null hchildren
  | expressionStatement token value =>
      have hvalue : S.code value := List.forall_mem_singleton.1 hchildren
      exact ⟨hstore, hframes, hvalue⟩
  | block token statements => exact meets_sequence hstore hframes scope S.null hchildren
  | identifier token name => exact meets_answer hstore hframes (S.valueOf hstore scope name)
  | integer token value => exact meets_answer hstore hframes (S.integer h)
  | string token text => exact meets_answer hstore hframes (S.string text)
  | boolean token value => exact meets_answer hstore hframes (S.boolean value)
  | function token parameters body =>
      exact ⟨hstore, hframes, S.closure (List.forall_mem_singleton.1 hchildren) _ _⟩
  | array token elements =>
      have hnone : ∀ value ∈ Collector.elements.values ++ [], S.value value := List.forall_mem_nil _
      exact meets_collect hstore hframes scope hnone hchildren
  | hash token pairs =>
      refine meets_gather hstore hframes scope S.empty fun pair hpair => ?_
      have hpairs := List.forall_mem_flatMap.1 hchildren pair hpair
      obtain ⟨hkey, hvalue⟩ := List.forall_mem_cons.1 hpairs
      exact ⟨hkey, List.forall_mem_singleton.1 hvalue⟩
  | missing => exact ⟨hstore, hframes, trivial⟩
  | foreign => exact ⟨hstore, hframes, trivial⟩
  | letStatement token name value =>
      exact meets_evaluate hstore hframes scope (List.forall_mem_singleton.1 hchildren) trivial
  | returnStatement token value =>
      exact meets_evaluate hstore hframes scope (List.forall_mem_singleton.1 hchildren) trivial
  | prefixed token operator right =>
      exact meets_evaluate hstore hframes scope (List.forall_mem_singleton.1 hchildren) trivial
  | binary token operator left right =>
      obtain ⟨hleft, hrest⟩ := List.forall_mem_cons.1 hchildren
      have hright : S.code right := List.forall_mem_singleton.1 hrest
      exact meets_evaluate hstore hframes scope hleft hright
  | conditional token condition consequence alternative =>
      obtain ⟨hcondition, hbranches⟩ := List.forall_mem_cons.1 hchildren
      obtain ⟨hconsequence, halternative⟩ := List.forall_mem_cons.1 hbranches
      exact meets_evaluate hstore hframes scope hcondition
        ⟨hconsequence, List.forall_mem_singleton.1 halternative⟩
  | call token callee arguments =>
      obtain ⟨hcallee, harguments⟩ := List.forall_mem_cons.1 hchildren
      exact meets_evaluate hstore hframes scope hcallee harguments
  | index token target key =>
      obtain ⟨htarget, hrest⟩ := List.forall_mem_cons.1 hchildren
      have hkey : S.code key := List.forall_mem_singleton.1 hrest
      exact meets_evaluate hstore hframes scope htarget hkey

theorem meets_enter {function : Value} {arguments : List Value} {next : Moment}
    (hfunction : S.value function) (harguments : ∀ argument ∈ arguments, S.value argument)
    (hpermits : S.Permits (.call function arguments))
    (h : Enters host frames machine arguments function depth next) : Meets S next := by
  cases h with
  | refused => exact meets_answer hstore hframes (S.error _)
  | builtin builtin =>
      rw [← store_trace host.traceLevel (.calledBuiltin builtin arguments.length)] at hstore
      exact ⟨hstore, hframes, S.run hpermits harguments _⟩
  | unnamed => exact ⟨hstore, hframes, trivial⟩
  | exhausted henter => exact ⟨holds_enter hstore harguments henter, hframes, trivial⟩
  | body henter =>
      exact meets_evaluate (holds_enter hstore harguments henter) hframes _
        (S.body hfunction) trivial

theorem meets_resume {value : Value} {frame : Frame} (hvalue : S.value value)
    (hframe : S.Frame frame) : Meets S (resume host frames depth machine value frame) := by
  cases frame with
  | receive => exact meets_answer hstore hframes (S.received hvalue)
  | next scope rest =>
      rw [resume]
      split
      · exact meets_answer hstore hframes hvalue
      · exact meets_sequence hstore hframes scope hvalue hframe
  | bind scope name => exact meets_bindNode hstore hframes scope name hvalue
  | send => exact meets_answer hstore hframes (S.returned hvalue)
  | operand operator => exact meets_answer hstore hframes (S.prefixed hvalue operator)
  | left scope operator right => exact meets_evaluate hstore hframes scope hframe hvalue
  | right operator left => exact meets_answer hstore hframes (S.binary hframe hvalue operator _)
  | condition scope consequence alternative =>
      rw [← store_trace host.traceLevel (.decided value)] at hstore
      rw [resume]
      split
      · exact meets_evaluate hstore hframes scope hframe.1 trivial
      · exact meets_otherwise hstore hframes scope hframe.2
  | branch => exact meets_answer hstore hframes hvalue
  | callee scope arguments =>
      have hfunction : ∀ kept ∈ (Collector.arguments value).values ++ [], S.value kept := by
        simpa [Collector.values] using hvalue
      exact meets_collect hstore hframes scope hfunction hframe
  | item scope collector before rest =>
      refine meets_collect hstore hframes scope ?_ hframe.2
      rw [← List.append_assoc]
      exact List.forall_mem_append.2 ⟨hframe.1, List.forall_mem_singleton.2 hvalue⟩
  | key scope entries node rest =>
      obtain ⟨hentries, hnode, hrest⟩ := hframe
      simp only [resume]
      split
      case h_1 => exact meets_answer hstore hframes (S.error _)
      case h_2 key hkey =>
        exact meets_evaluate hstore hframes scope hnode ⟨hentries, S.hashKey hvalue hkey, hrest⟩
  | entry scope entries key rest =>
      obtain ⟨hentries, hkey, hrest⟩ := hframe
      exact meets_gather hstore hframes scope (S.insert hentries hkey hvalue) hrest
  | target scope key => exact meets_evaluate hstore hframes scope hframe hvalue
  | index target => exact meets_answer hstore hframes (S.lookUp hframe hvalue)
  | body => exact meets_answer hstore hframes (S.received hvalue)

end

theorem Meets.step {moment next : Moment} (h : moment.Meets S)
    (hpermits : S.Permits moment.control) (hstep : moment.step host = some next) :
    next.Meets S := by
  obtain ⟨hstore, hframes, hcontrol⟩ := h
  cases turns_of_step hstep with
  | start scope node => exact meets_start hstore hframes scope hcontrol
  | enter henters => exact meets_enter hstore hframes hcontrol.1 hcontrol.2 hpermits henters
  | past => exact meets_answer hstore (List.forall_mem_cons.1 hframes).2 hcontrol
  | resume value frame =>
      obtain ⟨hframe, hbelow⟩ := List.forall_mem_cons.1 hframes
      exact meets_resume hstore hbelow hcontrol hframe
  | unwind => exact ⟨hstore, (List.forall_mem_cons.1 hframes).2, trivial⟩

/-- A run keeps to the standard as long as the standard allows for its calls of built-in
functions. -/
theorem Meets.reaches {moment later : Moment} (h : moment.Meets S)
    (hpermits : ∀ between, Reaches host moment between → S.Permits between.control)
    (hreaches : Reaches host moment later) : later.Meets S := by
  induction hreaches with
  | refl => exact h
  | tail hbetween hstep ih => exact ih.step (hpermits _ hbetween) hstep

theorem Meets.outcome {moment : Moment} (h : moment.Meets S)
    (hpermits : ∀ between, Reaches host moment between → S.Permits between.control) :
    S.Outcome (moment.meaning host) := by
  have hafter := h.reaches hpermits (arrives host moment)
  cases hresult : moment.meaning host with
  | ok value final =>
      rw [after_of_ok hresult] at hafter
      exact .ok hafter.control hafter.store
  | error fault final =>
      rw [after_of_error hresult] at hafter
      exact .error hafter.store

end Moment

/-! ## Whole runs -/

namespace Settings

variable {S : Standard} (settings : Settings) (scope : ScopeId) (program : Node) (machine : Machine)

theorem meets_begin (hmachine : machine.store.Holds S.value) (hprogram : S.code program) :
    (settings.begin scope program machine).Meets S := by
  refine ⟨?_, List.forall_mem_nil _, hprogram⟩
  rw [begin, Moment.store_trace]
  exact hmachine

/-- What a run hands out is what its first moment stands for, and after an error a message on
top, which does not concern the scopes. -/
theorem outcome_run
    (h : S.Outcome ((settings.begin scope program machine).meaning settings.toHost)) :
    S.Outcome (settings.run scope program machine) := by
  rw [run_eq]
  cases hresult : (settings.begin scope program machine).meaning settings.toHost with
  | ok value final =>
      rw [hresult] at h
      have hvalue := h.value value final rfl
      have hstore := h.ended value final rfl
      cases value with
      | error cause =>
          rw [← Moment.store_trace settings.traceLevel (.failed cause)] at hstore
          exact .ok hvalue hstore
      | _ => exact .ok hvalue hstore
  | error fault final =>
      rw [hresult] at h
      exact .error (h.stopped fault final rfl)

end Settings

/-! ## Runs that are checked -/

namespace Moment

/-- Whether a run ends after fewer steps than the bound says, and all its moments pass a check. -/
def throughout (host : Host) (check : Moment → Bool) : (bound : Nat) → Moment → Bool
  | 0, _ => false
  | bound + 1, moment =>
    check moment && (moment.step host).all (throughout host check bound)

theorem of_throughout {host : Host} {check : Moment → Bool} {bound : Nat} {moment later : Moment}
    (h : throughout host check bound moment = true) (hreaches : Reaches host moment later) :
    check later = true := by
  induction bound generalizing moment with
  | zero => cases h
  | succ bound ih =>
      obtain ⟨hmoment, hrest⟩ := Bool.and_eq_true_iff.1 h
      rcases hreaches.cases_head with rfl | ⟨next, hstep, hlater⟩
      · exact hmoment
      · change moment.step host = some next at hstep
        rw [hstep] at hrest
        exact ih hrest hlater

end Moment

end MonkeyLanguage
