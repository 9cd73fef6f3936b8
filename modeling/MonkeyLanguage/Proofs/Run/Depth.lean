-- SUMMARY: With more depth a run that ends goes the same way, and one that was cut short goes on.
import MonkeyLanguage.Proofs.Run.Absorption
import MonkeyLanguage.Proofs.Scoping.Writes

/-!
# More depth

How deep calls may nest matters to a run only at a call for which no depth is left. A run that comes
to no such call is the same with more depth. One that does ends there, with all that was bound and
written before, and with more depth it comes by the same call and goes on from it.
-/

namespace MonkeyLanguage

theorem Node.notAName_of_boundName {name : Node} {fault : Fault}
    (h : name.boundName = .error fault) : fault = .notAName := by
  cases name <;> cases h <;> rfl

theorem Node.notAName_of_parameterNames {parameters : List Node} {fault : Fault}
    (h : Node.parameterNames parameters = .error fault) : fault = .notAName := by
  induction parameters with
  | nil => cases h
  | cons parameter rest ih =>
      rw [parameterNames, List.mapM_cons] at h
      cases hname : parameter.boundName with
      | error cause =>
          rw [hname] at h
          cases h
          exact notAName_of_boundName hname
      | ok name =>
          rw [hname] at h
          cases hrest : Node.parameterNames rest with
          | error cause =>
              rw [parameterNames] at hrest
              obtain rfl : cause = fault := by simpa [hrest, Bind.bind, Except.bind] using h
              exact ih hrest
          | ok names =>
              rw [parameterNames] at hrest
              simp [hrest, Bind.bind, Except.bind, pure, Except.pure] at h

namespace Moment

variable {host : Host} {frames : List Frame} {depth : Nat} {machine : Machine}

/-! ## Calls for which no depth is left -/

/-- A run is at a fault because calls are nested too deeply. -/
def AtLimit (moment : Moment) : Prop :=
  moment.control = .fault .recursionLimit

/-- A step into a body for which no depth is left. It opens a scope for the body, and then the run
is at its limit. -/
inductive Exhausts : Moment → Moment → Prop where
  | intro {function : Value} {arguments : List Value} {frames : List Frame}
      {machine final : Machine} :
      machine.store.Extends final.store → final.console = machine.console →
      Exhausts ⟨.call function arguments, frames, 0, machine⟩
        ⟨.fault .recursionLimit, frames, 0, final⟩

theorem not_atLimit_sequence (scope : ScopeId) (last : Value) (statements : List Node) :
    ¬ (sequence frames depth machine scope last statements).AtLimit := by
  cases statements <;> simp [sequence, AtLimit]

theorem not_atLimit_collect (scope : ScopeId) (collector : Collector) (before : List Value)
    (nodes : List Node) :
    ¬ (collect frames depth machine scope collector before nodes).AtLimit := by
  cases nodes <;> cases collector <;> simp [collect, AtLimit]

theorem not_atLimit_gather (scope : ScopeId) (entries : List (HashKey × Value))
    (pairs : List (Node × Node)) :
    ¬ (gather frames depth machine scope entries pairs).AtLimit := by
  cases pairs <;> simp [gather, AtLimit]

theorem not_atLimit_otherwise (scope : ScopeId) (alternative : Node) :
    ¬ (otherwise frames depth machine scope alternative).AtLimit := by
  cases alternative <;> simp [otherwise, AtLimit]

theorem not_atLimit_start (scope : ScopeId) (node : Node) :
    ¬ (start frames depth machine scope node).AtLimit := by
  cases node with
  | program => exact not_atLimit_sequence scope _ _
  | block => exact not_atLimit_sequence scope _ _
  | array => exact not_atLimit_collect scope _ _ _
  | hash => exact not_atLimit_gather scope _ _
  | _ => intro h; cases h

theorem not_atLimit_resume (value : Value) (frame : Frame) :
    ¬ (resume host frames depth machine value frame).AtLimit := by
  cases frame with
  | next scope rest =>
      simp only [resume]
      split
      · simp [AtLimit]
      · exact not_atLimit_sequence scope _ _
  | bind scope name =>
      simp only [resume, after, bindNode_eq]
      cases hname : name.boundName with
      | ok text => simp [AtLimit]
      | error fault =>
          obtain rfl := Node.notAName_of_boundName hname
          simp [AtLimit]
  | condition =>
      simp only [resume]
      split
      · simp [AtLimit]
      · exact not_atLimit_otherwise _ _
  | callee => exact not_atLimit_collect _ _ _ _
  | item => exact not_atLimit_collect _ _ _ _
  | key =>
      simp only [resume]
      split <;> simp [AtLimit]
  | entry => exact not_atLimit_gather _ _ _
  | _ => intro h; cases h

theorem notAName_of_enter {parameters : List Node} {scope : ScopeId} {arguments : List Value}
    {fault : Fault} {final : Machine}
    (h : Eval.enter host parameters scope arguments machine = .error fault final) :
    fault = .notAName := by
  rw [enter_eq] at h
  cases hnames : Node.parameterNames parameters with
  | error cause =>
      rw [hnames] at h
      cases h
      exact Node.notAName_of_parameterNames hnames
  | ok names =>
      rw [hnames] at h
      cases h

theorem console_of_enter {parameters : List Node} {scope inner : ScopeId} {arguments : List Value}
    {final : Machine}
    (h : Eval.enter host parameters scope arguments machine = .ok inner final) :
    final.console = machine.console := by
  rw [enter_eq] at h
  cases hnames : Node.parameterNames parameters with
  | error cause =>
      rw [hnames] at h
      cases h
  | ok names =>
      rw [hnames] at h
      cases h
      exact console_trace host.traceLevel _

theorem extends_of_enter {parameters : List Node} {scope inner : ScopeId} {arguments : List Value}
    {final : Machine}
    (h : Eval.enter host parameters scope arguments machine = .ok inner final) :
    machine.store.Extends final.store := by
  obtain ⟨-, entries, hstore⟩ := store_of_enter h
  rw [hstore]
  exact machine.store.extends_open (some scope) entries

theorem exhausts_of_enter {arguments : List Value} {function : Value}
    (h : (enter host frames depth machine arguments function).AtLimit) :
    Exhausts ⟨.call function arguments, frames, depth, machine⟩
      (enter host frames depth machine arguments function) := by
  cases function with
  | closure identity parameters body scope =>
      simp only [enter] at h ⊢
      split at h
      · cases h
      · next hcount =>
          rw [if_neg hcount]
          cases henter : Eval.enter host parameters scope arguments machine with
          | error fault final =>
              obtain rfl := notAName_of_enter henter
              simp [henter, AtLimit] at h
          | ok inner final =>
              cases depth with
              | succ depth => simp [henter, runBody, AtLimit] at h
              | zero => exact .intro (extends_of_enter henter) (console_of_enter henter)
  | _ => cases h

/-- A run comes to its limit only by a call for which no depth is left. -/
theorem exhausts_of_step {moment next : Moment} (h : moment.step host = some next)
    (hnext : next.AtLimit) (hmoment : ¬ moment.AtLimit) : moment.Exhausts next := by
  obtain ⟨control, frames, depth, machine⟩ := moment
  cases control with
  | evaluate scope node =>
      obtain rfl := Option.some.inj h
      exact absurd hnext (not_atLimit_start scope node)
  | call function arguments =>
      obtain rfl := Option.some.inj h
      exact exhausts_of_enter hnext
  | answer value =>
      cases turns_of_step h with
      | past => cases hnext
      | resume _ frame => exact absurd hnext (not_atLimit_resume value frame)
  | fault fault =>
      cases turns_of_step h
      exact absurd hnext hmoment

/-! ## What is there stays there -/

end Moment

/-- What was written to one machine was written to another one first, and all names that are bound
in a scope of it are bound in the same scope of the other one. -/
structure Machine.Grows (before after : Machine) : Prop where
  texts : before.console.texts.toList <+: after.console.texts.toList
  names : ∀ id, ∀ name ∈ Table.keys (before.store.bindings id),
    name ∈ Table.keys (after.store.bindings id)

namespace Machine

variable {machine middle final : Machine}

theorem Grows.refl (machine : Machine) : machine.Grows machine :=
  ⟨List.prefix_refl _, fun _ _ h => h⟩

theorem Grows.trans (h : machine.Grows middle) (h' : middle.Grows final) : machine.Grows final :=
  ⟨h.texts.trans h'.texts, fun id name hname => h'.names id name (h.names id name hname)⟩

theorem grows_of_changesOnly {scope : ScopeId}
    (hstore : machine.store.ChangesOnly scope final.store)
    (hconsole : final.console = machine.console) : machine.Grows final where
  texts := hconsole ▸ List.prefix_refl _
  names id name hname := by
    by_cases hid : id = scope
    · exact hid ▸ hstore.names name (hid ▸ hname)
    · by_cases hnext : id < machine.store.next
      · rwa [hstore.others id hnext hid]
      · rw [Store.bindings_of_next_le (Nat.le_of_not_lt hnext)] at hname
        cases hname

theorem Grows.of_store_eq (hstore : final.store = machine.store)
    (htexts : machine.console.texts.toList <+: final.console.texts.toList) : machine.Grows final :=
  ⟨htexts, fun _ _ hname => hstore ▸ hname⟩

theorem grows_trace (level : Int) (event : TraceEvent) (machine : Machine) :
    machine.Grows (machine.trace level event) :=
  .of_store_eq (Moment.store_trace level event)
    (Moment.console_trace level event ▸ List.prefix_refl _)

theorem prefix_write (console : Console) (text : String) :
    console.texts.toList <+: (console.write text).texts.toList := by
  simp [Console.write]

theorem prefix_run (builtin : Builtin) (arguments : List Value) (console : Console) :
    console.texts.toList <+: (builtin.run arguments console).2.texts.toList := by
  cases builtin with
  | length => exact List.prefix_refl _
  | printLine =>
      cases arguments with
      | nil => exact List.prefix_refl _
      | cons => exact prefix_write console _
  | printFormatted =>
      cases arguments with
      | nil => exact List.prefix_refl _
      | cons format arguments =>
          simp only [Builtin.run, Builtin.runPrintFormatted, Console.printFormatted?]
          cases Format.expand? format.inspect (arguments.map Value.inspect) with
          | none => exact List.prefix_refl _
          | some text => exact prefix_write console text

end Machine

namespace Moment

variable {host : Host} {frames : List Frame} {depth : Nat} {machine : Machine}

theorem grows_start (scope : ScopeId) (node : Node) :
    machine.Grows (start frames depth machine scope node).machine := by
  cases node with
  | program => exact (machine_sequence ..).symm ▸ .refl _
  | block => exact (machine_sequence ..).symm ▸ .refl _
  | array => exact (machine_collect ..).symm ▸ .refl _
  | hash => exact (machine_gather ..).symm ▸ .refl _
  | function => exact .of_store_eq rfl (List.prefix_refl _)
  | _ => exact .refl _

theorem grows_enter {function : Value} {arguments : List Value} {next : Moment}
    (h : Enters host frames machine arguments function depth next) :
    machine.Grows next.machine := by
  have hopens {parameters : List Node} {scope inner : ScopeId} {final : Machine}
      (henter : Eval.enter host parameters scope arguments machine = .ok inner final) :
      machine.Grows final :=
    Machine.grows_of_changesOnly ((extends_of_enter henter).changesOnly scope)
      (console_of_enter henter)
  cases h with
  | refused => exact .refl _
  | builtin builtin =>
      let traced := machine.trace host.traceLevel (.calledBuiltin builtin arguments.length)
      exact (Machine.grows_trace host.traceLevel _ machine).trans
        (.of_store_eq rfl (Machine.prefix_run builtin arguments traced.console))
  | unnamed => exact .refl _
  | exhausted henter => exact hopens henter
  | body henter => exact hopens henter

theorem grows_resume (value : Value) (frame : Frame) :
    machine.Grows (resume host frames depth machine value frame).machine := by
  cases frame with
  | next scope rest =>
      simp only [resume]
      split
      · exact .refl _
      · exact (machine_sequence ..).symm ▸ .refl _
  | bind scope name =>
      simp only [resume, after, bindNode_eq]
      cases name.boundName with
      | error fault => exact .refl _
      | ok text =>
          exact (Machine.grows_trace host.traceLevel _ machine).trans
            (Machine.grows_of_changesOnly (Store.changesOnly_bind _ scope text value) rfl)
  | condition =>
      simp only [resume]
      split
      · exact Machine.grows_trace host.traceLevel _ machine
      · exact (machine_otherwise ..).symm ▸ Machine.grows_trace host.traceLevel _ machine
  | callee => exact (machine_collect ..).symm ▸ .refl _
  | item => exact (machine_collect ..).symm ▸ .refl _
  | key =>
      simp only [resume]
      split <;> exact .refl _
  | entry => exact (machine_gather ..).symm ▸ .refl _
  | _ => exact .refl _

/-- What a step does to the machine adds to it. -/
theorem grows_of_step {moment next : Moment} (h : moment.step host = some next) :
    moment.machine.Grows next.machine := by
  cases turns_of_step h with
  | start scope node => exact grows_start scope node
  | enter henters => exact grows_enter henters
  | past => exact .refl _
  | resume value frame => exact grows_resume value frame
  | unwind => exact .refl _

theorem Reaches.grows {moment later : Moment} (h : Reaches host moment later) :
    moment.machine.Grows later.machine := by
  induction h with
  | refl => exact .refl _
  | tail _ hstep ih => exact ih.trans (grows_of_step hstep)

/-! ## More depth -/

theorem Reaches.of_fault {fault : Fault} {later : Moment}
    (h : Reaches host ⟨.fault fault, frames, depth, machine⟩ later) :
    later.control = .fault fault ∧ later.machine = machine := by
  induction h with
  | refl => exact ⟨rfl, rfl⟩
  | @tail mid next _ hstep ih =>
      obtain ⟨control, _, _, _⟩ := mid
      obtain ⟨rfl, rfl⟩ := ih
      cases turns_of_step hstep
      exact ⟨rfl, rfl⟩

/-- With more depth a run goes the same way, at least up to a call for which no depth was left. -/
theorem Reaches.within_or_exhausts (extra : Nat) {moment later : Moment}
    (h : Reaches host moment later) (hmoment : ¬ moment.AtLimit) :
    (Reaches host (moment.within [] extra) (later.within [] extra) ∧ ¬ later.AtLimit) ∨
      ∃ last next, Reaches host moment last ∧
        Reaches host (moment.within [] extra) (last.within [] extra) ∧ last.Exhausts next ∧
          Reaches host next later := by
  induction h with
  | refl => exact .inl ⟨.refl, hmoment⟩
  | @tail mid next hmid hstep ih =>
      rcases ih with ⟨hwithin, hfree⟩ | ⟨last, exhausted, hlast, hwithin, hexhausts, hrest⟩
      · by_cases hlimit : next.AtLimit
        · exact .inr ⟨mid, next, hmid, hwithin, exhausts_of_step hstep hlimit hfree, .refl⟩
        · exact .inl ⟨hwithin.tail (step_within [] extra hstep (.inr fun h => absurd h hlimit)),
            hlimit⟩
      · exact .inr ⟨last, exhausted, hlast, hwithin, hexhausts, hrest.tail hstep⟩

theorem reaches_of_error {control : Control} {fault : Fault} {final : Machine}
    (h : control.meaning host depth machine = .error fault final) :
    Reaches host ⟨control, [], depth, machine⟩ ⟨.fault fault, [], depth, final⟩ := by
  have harrives := arrives host ⟨control, [], depth, machine⟩
  rwa [after_of_error h] at harrives

section

variable {control : Control} {final : Machine} (extra : Nat)
  (hcontrol : control ≠ .fault .recursionLimit)

include hcontrol

theorem meaning_deeper_of_ok {value : Value}
    (h : control.meaning host depth machine = .ok value final) :
    control.meaning host (depth + extra) machine = .ok value final := by
  have hreaches : Reaches host ⟨control, [], depth, machine⟩ ⟨.answer value, [], depth, final⟩ :=
    arrives_of_ok h
  rcases hreaches.within_or_exhausts extra hcontrol with
    ⟨hwithin, -⟩ | ⟨_, _, -, -, hexhausts, hrest⟩
  · exact meaning_of_reaches_answer hwithin
  · cases hexhausts
    cases hrest.of_fault.1

theorem meaning_deeper_of_error {fault : Fault}
    (h : control.meaning host depth machine = .error fault final)
    (hfault : fault ≠ .recursionLimit) :
    control.meaning host (depth + extra) machine = .error fault final := by
  rcases (reaches_of_error h).within_or_exhausts extra hcontrol with
    ⟨hwithin, -⟩ | ⟨_, _, -, -, hexhausts, hrest⟩
  · exact meaning_of_reaches_fault hwithin
  · cases hexhausts
    have hsame := hrest.of_fault.1
    cases hsame
    exact absurd rfl hfault

/-- A run that is cut short ends at a call for which no depth is left. With more depth it comes by
the same call, on the same machine. -/
theorem exists_exhausted_call
    (h : control.meaning host depth machine = .error .recursionLimit final) :
    ∃ function arguments frames atCall,
      Reaches host ⟨control, [], depth, machine⟩ ⟨.call function arguments, frames, 0, atCall⟩ ∧
        Reaches host ⟨control, [], depth + extra, machine⟩
          ⟨.call function arguments, frames, extra, atCall⟩ ∧
        atCall.store.Extends final.store ∧ final.console = atCall.console := by
  rcases (reaches_of_error h).within_or_exhausts extra hcontrol with
    ⟨-, hfree⟩ | ⟨last, next, hlast, hwithin, hexhausts, hrest⟩
  · exact absurd rfl hfree
  · obtain @⟨function, arguments, frames, atCall, middle, hstore, hconsole⟩ := hexhausts
    obtain rfl : final = middle := hrest.of_fault.2
    refine ⟨function, arguments, frames, atCall, hlast, ?_, hstore, hconsole⟩
    simpa [within] using hwithin

end

theorem machine_after (frames : List Frame) (depth : Nat) (machine : Machine)
    (computation : Eval Value) :
    (after frames depth machine computation).machine = computation.machineAfter machine := by
  rw [after, Eval.machineAfter]
  cases computation machine <;> rfl

theorem step_after_eq_none (depth : Nat) (machine : Machine) (computation : Eval Value) :
    (after [] depth machine computation).step host = none := by
  rw [after]
  cases computation machine <;> rfl

/-- A run comes to its end from every moment of it. -/
theorem Reaches.grows_end {control : Control} {later : Moment}
    (h : Reaches host ⟨control, [], depth, machine⟩ later) :
    later.machine.Grows ((control.meaning host depth).machineAfter machine) := by
  have harrives := arrives host ⟨control, [], depth, machine⟩
  have hmachine := machine_after [] depth machine (control.meaning host depth)
  rcases h.total_of_right_unique (rightUnique_step host) harrives with hlater | hbefore
  · exact hmachine ▸ Reaches.grows hlater
  · have heq := Reaches.eq_of_step_none hbefore (step_after_eq_none ..)
    exact hmachine ▸ heq ▸ .refl _

end Moment

/-! ## Statements before a fault -/

/-- A fault in a row of statements is one of a statement; those before it are done. -/
theorem exists_statement_of_fault {host : Host} {call : Call} {scope : ScopeId} {last : Value}
    {statements : List Node} {machine final : Machine} {fault : Fault}
    (h : evaluateSequence host call scope last statements machine = .error fault final) :
    ∃ done statement rest value before, statements = done ++ statement :: rest ∧
      evaluateSequence host call scope last done machine = .ok value before ∧
      (done ≠ [] → value.isSignal = false) ∧
      evaluate host call scope statement before = .error fault final := by
  induction statements generalizing last machine with
  | nil => cases h
  | cons statement rest ih =>
      rw [evaluateSequence] at h
      cases hfirst : evaluate host call scope statement machine with
      | error cause middle =>
          rw [Eval.error_bind hfirst] at h
          cases h
          exact ⟨[], statement, rest, last, machine, rfl, rfl, fun h => absurd rfl h, hfirst⟩
      | ok value middle =>
          rw [Eval.ok_bind hfirst] at h
          split at h
          · cases h
          · next hsignal =>
              obtain ⟨done, failing, others, result, before, rfl, hdone, hresult, hfails⟩ := ih h
              refine ⟨statement :: done, failing, others, result, before, rfl, ?_, fun _ => ?_,
                hfails⟩
              · rw [evaluateSequence, Eval.ok_bind hfirst, if_neg hsignal]
                exact hdone
              · cases done with
                | nil =>
                    cases hdone
                    simpa using hsignal
                | cons => exact hresult (List.cons_ne_nil _ _)

namespace Settings

variable (settings : Settings) (extra : Nat) (scope : ScopeId) (machine : Machine)

/-- The same settings with more depth. -/
def deepened : Settings := { settings with depth := settings.depth + extra }

/-- How a run ends that nests calls too deeply: nothing of what it did is undone, and with more
depth it goes on from there. -/
structure CutShort (program : Node) (final : Machine) : Prop where
  /-- Some statements were done, with more depth in the same way. Then one came to a call for which
  no depth is left. It may have bound names in the scope of the run, but in no other. -/
  statement : ∃ done statement rest value before, program.statements = done ++ statement :: rest ∧
    (done ≠ [] → value.isSignal = false) ∧
    settings.evaluate scope (.block default done) (settings.begin scope program machine).machine =
      .ok value before ∧
    (settings.deepened extra).evaluate scope (.block default done)
      (settings.begin scope program machine).machine = .ok value before ∧
    settings.evaluate scope statement before = .error .recursionLimit final ∧
    before.store.ChangesOnly scope final.store
  /-- The run ended at that call. All that was bound and written before is still there, and with
  more depth the run comes by the same call, on the same machine. -/
  call : ∃ function arguments frames atCall,
    Moment.Reaches settings.toHost (settings.begin scope program machine)
      ⟨.call function arguments, frames, 0, atCall⟩ ∧
    Moment.Reaches settings.toHost ((settings.deepened extra).begin scope program machine)
      ⟨.call function arguments, frames, extra, atCall⟩ ∧
    atCall.store.Extends final.store ∧ final.console = atCall.console

variable {settings extra scope machine}

variable (extra) in
theorem evaluate_deepened (node : Node) {value : Value} {before final : Machine}
    (h : settings.evaluate scope node before = .ok value final) :
    (settings.deepened extra).evaluate scope node before = .ok value final := by
  have hcontrol : Control.evaluate scope node ≠ .fault .recursionLimit := by simp
  exact Moment.meaning_deeper_of_ok extra hcontrol h

variable (extra) in
theorem cutShort {token : Token} {statements : List Node} {final : Machine}
    (h : (settings.begin scope (.program token statements) machine).meaning settings.toHost =
      .error .recursionLimit final) :
    settings.CutShort extra scope machine (.program token statements) final where
  statement := by
    have hsequence : evaluateSequence settings.toHost settings.call scope .null statements
        (settings.begin scope (.program token statements) machine).machine =
          .error .recursionLimit final := by
      have hprogram : (do
          let value ← evaluateSequence settings.toHost settings.call scope .null statements
          pure value.received : Eval Value)
            (settings.begin scope (.program token statements) machine).machine =
              .error .recursionLimit final := h
      cases hresult : evaluateSequence settings.toHost settings.call scope .null statements
          (settings.begin scope (.program token statements) machine).machine with
      | ok value middle =>
          rw [Eval.ok_bind hresult] at hprogram
          cases hprogram
      | error fault middle =>
          rw [Eval.error_bind hresult] at hprogram
          exact hprogram
    obtain ⟨done, statement, rest, value, before, hstatements, hdone, hvalue, hfails⟩ :=
      exists_statement_of_fault hsequence
    have hfails : settings.evaluate scope statement before = .error .recursionLimit final := hfails
    have hkept := (settings.scopes_kept before).1 scope statement
    rw [Eval.machineAfter_of_error hfails] at hkept
    exact ⟨done, statement, rest, value, before, hstatements, hvalue, hdone,
      evaluate_deepened extra (.block default done) hdone, hfails, hkept⟩
  call := Moment.exists_exhausted_call extra (by simp) h

variable (extra) in
theorem run_deepened {program : Node}
    (h : ∀ final, settings.run scope program machine ≠ .error .recursionLimit final) :
    (settings.deepened extra).run scope program machine = settings.run scope program machine := by
  have hsame : ((settings.deepened extra).begin scope program machine).meaning settings.toHost =
      (settings.begin scope program machine).meaning settings.toHost := by
    have hcontrol : Control.evaluate scope program ≠ .fault .recursionLimit := by simp
    cases hmeaning : (settings.begin scope program machine).meaning settings.toHost with
    | ok value final => exact Moment.meaning_deeper_of_ok extra hcontrol hmeaning
    | error fault final =>
        refine Moment.meaning_deeper_of_error extra hcontrol hmeaning ?_
        rintro rfl
        exact h final (by rw [run_eq, hmeaning])
  have hhost : (settings.deepened extra).toHost = settings.toHost := rfl
  rw [run_eq, run_eq, hhost, hsame]

theorem meaning_of_run_error {program : Node} {fault : Fault} {final : Machine}
    (h : settings.run scope program machine = .error fault final) :
    (settings.begin scope program machine).meaning settings.toHost = .error fault final := by
  rw [run_eq] at h
  split at h
  · cases h
  · cases h
  · cases h
    assumption

variable (settings scope machine) in
/-- A run leaves the machine as its program does, but for the log. -/
theorem exists_machineAfter_run (program : Node) :
    ∃ log, (settings.run scope program).machineAfter machine =
      { (settings.evaluate scope program).machineAfter
          (settings.begin scope program machine).machine with log } := by
  have hmeaning : settings.evaluate scope program (settings.begin scope program machine).machine =
      (settings.begin scope program machine).meaning settings.toHost := rfl
  rw [Eval.machineAfter, Eval.machineAfter, run_eq, hmeaning]
  cases (settings.begin scope program machine).meaning settings.toHost with
  | ok value final =>
      cases value with
      | error cause =>
          refine ⟨(final.trace settings.traceLevel (.failed cause)).log, ?_⟩
          simp only [Machine.trace]
          split <;> rfl
      | _ => exact ⟨final.log, rfl⟩
  | error fault final => exact ⟨final.log, rfl⟩

theorem CutShort.prefix_texts {program : Node} {final : Machine}
    (h : settings.CutShort extra scope machine program final) :
    let deeper := (settings.deepened extra).run scope program
    final.console.texts.toList <+: (deeper.machineAfter machine).console.texts.toList := by
  intro deeper
  obtain ⟨function, arguments, frames, atCall, -, hreaches, -, hconsole⟩ := h.call
  obtain ⟨log, hrun⟩ := exists_machineAfter_run (settings.deepened extra) scope machine program
  rw [hconsole, hrun]
  exact hreaches.grows_end.texts

end Settings

theorem Eval.result_perform_eq_error_iff {α : Type} {work : Eval α} {machine : Machine}
    {fault : Fault} : (work.perform machine).result = .error fault ↔
      ∃ final, work { machine with console := .empty } = .error fault final := by
  rw [perform]
  split <;> simp_all

/-- With more depth, a run that does not end because calls are nested too deeply is the same: the
result, all that is written and all that is bound. One that does ends without undoing anything, and
what it writes is the first part of what is written with more depth. -/
theorem Settings.perform_deepened (settings : Settings) (extra : Nat) (scope : ScopeId)
    (machine : Machine) (token : Token) (statements : List Node) :
    let program := Node.program token statements
    let outcome := (settings.run scope program).perform machine
    let deeper := ((settings.deepened extra).run scope program).perform machine
    (outcome.result ≠ .error .recursionLimit → deeper = outcome) ∧
      (outcome.result = .error .recursionLimit →
        (∃ rest, deeper.written = outcome.written ++ rest) ∧
          settings.CutShort extra scope { machine with console := .empty } program
            outcome.machine) := by
  intro program outcome deeper
  refine ⟨fun hresult => ?_, fun hresult => ?_⟩
  · have hnot : ∀ final, settings.run scope program { machine with console := .empty } ≠
        .error .recursionLimit final := fun final hfinal =>
      hresult (Eval.result_perform_eq_error_iff.2 ⟨final, hfinal⟩)
    have hrun := run_deepened extra hnot
    simp only [deeper, outcome, Eval.perform, hrun]
  · obtain ⟨final, hfinal⟩ := Eval.result_perform_eq_error_iff.1 hresult
    have hmachine : outcome.machine = final :=
      (Eval.machine_perform _ _).trans (Eval.machineAfter_of_error hfinal)
    have hcut := cutShort extra (meaning_of_run_error hfinal)
    rw [← hmachine] at hcut
    obtain ⟨rest, hrest⟩ := hcut.prefix_texts
    refine ⟨⟨String.join rest, ?_⟩, hcut⟩
    have hdeeper : deeper.machine = _ := Eval.machine_perform _ _
    rw [Outcome.written, Outcome.written, Console.written, Console.written, hdeeper, ← hrest,
      String.join_append]

/-- `println("a"); let f = fn() { f() }; f()`. -/
def endlessCalls : List Node :=
  let call (name : String) (arguments : List Node) : Node :=
    .call default (.identifier default name) arguments
  [.expressionStatement default (call "println" [.string default "a"]),
    .letStatement default (.identifier default "f")
      (.function default [] (.block default [.expressionStatement default (call "f" [])])),
    .expressionStatement default (call "f" [])]

/-- However deep calls may nest, that program nests them deeper, and the line is written. Without
its last statement it ends, and always in the same way. -/
theorem Settings.perform_deepened_endlessCalls :
    let settings : Settings := { depth := 1 }
    let endless := Node.program default endlessCalls
    let outcome := (settings.run globalScope endless).perform .initial
    let ending := Node.program default (endlessCalls.take 2)
    outcome.result = .error .recursionLimit ∧ outcome.written = "a\n" ∧
      settings.CutShort 2 globalScope .initial endless outcome.machine ∧
      ((settings.deepened 2).run globalScope ending).perform .initial =
        (settings.run globalScope ending).perform .initial := by
  intro settings endless outcome ending
  have hresult : outcome.result = .error .recursionLimit := rfl
  have hcut := (settings.perform_deepened 2 globalScope .initial default endlessCalls).2 hresult
  have hwritten : outcome.written = "a\n" := by decide +kernel
  refine ⟨hresult, hwritten, hcut.2, ?_⟩
  refine (settings.perform_deepened 2 globalScope .initial default (endlessCalls.take 2)).1 ?_
  intro h
  cases h

end MonkeyLanguage
