-- SUMMARY: Runs at different trace levels differ in nothing but how much of one trace they record.
import MonkeyLanguage.Proofs.Alike.Rendering
import MonkeyLanguage.Proofs.Scoping.Reach

/-!
# Tracing does not interfere

The level of the trace decides what goes to the log, and nothing that a program does depends on the
log. A run at any level is compared with a run at level three that has a log of its own. That log
holds everything that happens, and what the first run records is the part of it that its level
asks for.
-/

namespace MonkeyLanguage

/-! ## Messages -/

/-- What an event says in a log: the lowest level at which it is recorded, and its line. -/
def TraceEvent.message (event : TraceEvent) : Int × String :=
  (event.level, event.line)

theorem TraceEvent.level_mem (event : TraceEvent) : 1 ≤ event.level ∧ event.level ≤ 3 := by
  cases event <;> simp [TraceEvent.level]

/-- The messages that a level asks for, in order. -/
def messagesAt (level : Int) (messages : List (Int × String)) : List (Int × String) :=
  messages.filter fun message => message.1 ≤ level

theorem messagesAt_append_message (level : Int) (messages : List (Int × String))
    (event : TraceEvent) :
    messagesAt level (messages ++ [event.message]) =
      messagesAt level messages ++ if event.level ≤ level then [event.message] else [] := by
  rw [messagesAt, List.filter_append, messagesAt]
  congr 1
  by_cases h : event.level ≤ level <;> simp [TraceEvent.message, h]

namespace TraceLog

/-- The log has come from an earlier one by recording events with these messages, in order. -/
def Recorded (start : TraceLog) (messages : List (Int × String)) (log : TraceLog) : Prop :=
  ∃ events : List TraceEvent,
    events.map TraceEvent.message = messages ∧ log = events.foldl TraceLog.record start

namespace Recorded

variable {start log : TraceLog} {messages : List (Int × String)}

theorem nil_iff : start.Recorded [] log ↔ log = start := by
  refine ⟨?_, fun h => ⟨[], rfl, h⟩⟩
  rintro ⟨events, hevents, hlog⟩
  rwa [List.map_eq_nil_iff.1 hevents] at hlog

theorem record (h : start.Recorded messages log) (event : TraceEvent) :
    start.Recorded (messages ++ [event.message]) (log.record event) := by
  obtain ⟨events, rfl, rfl⟩ := h
  exact ⟨events ++ [event], by simp, by rw [List.foldl_concat]⟩

theorem recordAt {level : Int} (h : start.Recorded (messagesAt level messages) log)
    (event : TraceEvent) :
    start.Recorded (messagesAt level (messages ++ [event.message])) (log.recordAt level event) := by
  rw [messagesAt_append_message, TraceLog.recordAt]
  split
  · exact h.record event
  · rwa [List.append_nil]

end Recorded

theorem events_record {log : TraceLog} (h : log.isOpen = log.events?.isSome) (event : TraceEvent) :
    (log.record event).events = log.events ++ [event] ∧
      (log.record event).isOpen = (log.record event).events?.isSome := by
  obtain ⟨events?, isOpen⟩ := log
  cases events? with
  | none =>
      cases h
      exact ⟨rfl, rfl⟩
  | some events =>
      cases h
      exact ⟨by simp [record, TraceLog.events], rfl⟩

end TraceLog

/-! ## Runs at two levels -/

theorem Node.match_of_eq {node node' : Node} (h : node = node') :
    node.Match Eq (fun _ => true) node' := by
  subst h
  exact node.match_self (fun _ => rfl) fun _ => rfl

/-- Everything is the same in both runs, but for the logs. The second run is at level three, on a
log of its own, and the log of the first has recorded what its level asks for of the messages
there. -/
def Correspondence.levels (host : Host) (start : TraceLog) : Correspondence where
  nodes := Eq
  names _ := true
  scopes _ := True
  identities := Eq
  consoles console console' := console.texts = console'.texts
  logs log log' :=
    start.Recorded (messagesAt host.traceLevel (log'.events.map TraceEvent.message)) log ∧
      log'.isOpen = log'.events?.isSome
  host := host
  level' := 3
  matches_of_nodes h := Node.match_of_eq h
  render_of_nodes h := congrArg Node.render h
  write text h := congrArg (Array.push · text) h
  record := by
    rintro log log' event event' hlevel hline ⟨hlog, hfilled⟩
    have hmessage : event.message = event'.message := Prod.ext hlevel hline
    have hrecorded : log'.recordAt 3 event' = log'.record event' := if_pos event'.level_mem.2
    obtain ⟨hevents, hfilled⟩ := TraceLog.events_record hfilled event'
    rw [hrecorded, hevents, List.map_append, List.map_singleton, ← hmessage]
    exact ⟨hlog.recordAt event, hfilled⟩

section

variable {host : Host} {start : TraceLog}

theorem Value.Alike.eq_of_levels {value value' : Value}
    (h : value.Alike (.levels host start) value') : value = value' := by
  have hsame : value.SameSince 0 0 value' := h.mono .inl id id
  exact hsame.eq

theorem Store.Alike.eq_of_levels {store store' : Store}
    (h : store.Alike (.levels host start) store') : store = store' := by
  refine Store.eq_of_views h.next (fun id => ?_) fun id => h.outer id trivial
  have hbindings := h.bindings_alike (fun _ => rfl) id trivial
  exact Table.Alike.eq (hbindings.imp fun _ _ hentry => ⟨hentry.1, hentry.2.eq_of_levels⟩)

theorem Machine.alike_levels (machine : Machine) :
    { machine with console := .empty }.Alike (.levels host machine.log)
      { machine with console := .empty, log := {} } where
  store := by
    refine ⟨rfl, fun _ _ => trivial, fun _ _ => rfl, fun _ _ _ _ => trivial, fun id _ => ?_⟩
    refine List.forall₂_same.2 fun entry _ => ⟨rfl, ?_⟩
    exact Value.alike_self ⟨fun _ => rfl, fun _ => rfl⟩ entry.2 fun _ _ => trivial
  identities _ := rfl
  console := rfl
  log := ⟨TraceLog.Recorded.nil_iff.2 rfl, rfl⟩

end

/-- The outcomes are the same but for the log: the same result or fault, the same texts on the
console, the same scopes with the same bindings, and as many closures. -/
structure Outcome.SameButLog (outcome outcome' : Outcome Value) : Prop where
  result : outcome.result = outcome'.result
  written : outcome.machine.console = outcome'.machine.console
  store : outcome.machine.store = outcome'.machine.store
  closures : outcome.machine.closures = outcome'.machine.closures

theorem Machine.Alike.sameButLog {host : Host} {start : TraceLog} {machine machine' : Machine}
    (h : machine.Alike (.levels host start) machine') (result : Except Fault Value) :
    (Outcome.mk result machine).SameButLog ⟨result, machine'⟩ where
  result := rfl
  written := congrArg Console.mk h.console
  store := h.store.eq_of_levels
  closures := h.identities 0

/-- What two computations leave behind that start on the same machine, the second with a log of its
own. -/
theorem Eval.Alike.perform_levels {host : Host} {machine : Machine}
    {computation computation' : Eval Value}
    (h : (Correspondence.levels host machine.log).Computes computation computation') :
    (computation.perform machine).SameButLog (computation'.perform { machine with log := {} }) ∧
      machine.log.Recorded
        (messagesAt host.traceLevel
          ((computation'.perform { machine with log := {} }).machine.log.events.map
            TraceEvent.message))
        (computation.perform machine).machine.log := by
  have hresults := h _ _ machine.alike_levels
  rw [perform, perform]
  generalize computation _ = result at hresults ⊢
  generalize computation' _ = result' at hresults ⊢
  cases hresults with
  | ok hvalue hfinal =>
      cases hvalue.eq_of_levels
      exact ⟨hfinal.sameButLog _, hfinal.log.1⟩
  | error fault hfinal => exact ⟨hfinal.sameButLog _, hfinal.log.1⟩

namespace Outcome.SameButLog

variable {outcome outcome' : Outcome Value}

theorem symm (h : outcome.SameButLog outcome') : outcome'.SameButLog outcome :=
  ⟨h.result.symm, h.written.symm, h.store.symm, h.closures.symm⟩

theorem trans {outcome'' : Outcome Value} (h : outcome.SameButLog outcome')
    (h' : outcome'.SameButLog outcome'') : outcome.SameButLog outcome'' :=
  ⟨h.result.trans h'.result, h.written.trans h'.written, h.store.trans h'.store,
    h.closures.trans h'.closures⟩

end Outcome.SameButLog

namespace Settings

variable (settings : Settings) (scope : ScopeId) (program : Node) (machine : Machine)

/-- The outcome of a run at a level of the trace. -/
def outcomeAt (level : Int) : Outcome Value :=
  ({ settings with traceLevel := level }.run scope program).perform machine

/-- What a run says at level three, on a log of its own. -/
def messages : List (Int × String) :=
  (settings.outcomeAt scope program { machine with log := {} } 3).machine.log.events.map
    TraceEvent.message

theorem messagesAt_messages {level : Int} (h : 3 ≤ level) :
    messagesAt level (settings.messages scope program machine) =
      settings.messages scope program machine := by
  refine List.filter_eq_self.2 fun message hmessage => decide_eq_true ?_
  obtain ⟨event, -, rfl⟩ := List.mem_map.1 hmessage
  exact Int.le_trans event.level_mem.2 h

theorem messagesAt_messages_of_nonpos {level : Int} (h : level ≤ 0) :
    messagesAt level (settings.messages scope program machine) = [] := by
  refine List.filter_eq_nil_iff.2 fun message hmessage => ?_
  obtain ⟨event, -, rfl⟩ := List.mem_map.1 hmessage
  rw [decide_eq_true_eq]
  exact fun hle => absurd (Int.le_trans event.level_mem.1 (Int.le_trans hle h)) (by decide)

/-- The level of the trace shows in nothing but the log. What is recorded at level three is
everything that a run says, at any other level it is the part that the level asks for, in the same
order, and below level one the log stays as it is. -/
theorem run_levels :
    (∀ level level',
      (settings.outcomeAt scope program machine level).SameButLog
        (settings.outcomeAt scope program machine level')) ∧
    (∃ messages,
      machine.log.Recorded messages (settings.outcomeAt scope program machine 3).machine.log ∧
      ∀ level, machine.log.Recorded (messagesAt level messages)
        (settings.outcomeAt scope program machine level).machine.log) ∧
    ∀ level, level ≤ 0 →
      (settings.outcomeAt scope program machine level).machine.log = machine.log := by
  have hfull : ∀ level, (settings.outcomeAt scope program machine level).SameButLog
        (settings.outcomeAt scope program { machine with log := {} } 3) ∧
      machine.log.Recorded (messagesAt level (settings.messages scope program machine))
        (settings.outcomeAt scope program machine level).machine.log := by
    intro level
    let host : Host := { settings.toHost with traceLevel := level }
    exact (alike_run (.levels host machine.log) settings.depth trivial rfl).perform_levels
  have hsame : ∀ level level', (settings.outcomeAt scope program machine level).SameButLog
      (settings.outcomeAt scope program machine level') := fun level level' =>
    (hfull level).1.trans (hfull level').1.symm
  refine ⟨hsame, ⟨settings.messages scope program machine, ?_, fun level => (hfull level).2⟩, ?_⟩
  · rw [← settings.messagesAt_messages scope program machine (Int.le_refl 3)]
    exact (hfull 3).2
  · intro level hlevel
    have hrecorded := (hfull level).2
    rw [settings.messagesAt_messages_of_nonpos scope program machine hlevel] at hrecorded
    exact TraceLog.Recorded.nil_iff.1 hrecorded

/-- A program that says something at every level. -/
def binding : Node :=
  (Parse.ofSource "let x = 1; if (x) \x7b x \x7d").program

/-- It says three things at level three, and nothing at level zero. -/
theorem run_levels_binding :
    (0 : Int) ≤ 0 ∧
    (outcomeAt {} globalScope binding .initial 0).machine.log = Machine.initial.log ∧
    (outcomeAt {} globalScope binding .initial 3).machine.log.text? =
      some "run program: 2 statements\nlet x = 1\nif condition 1 -> True\n" :=
  ⟨by decide, (run_levels {} globalScope binding .initial).2.2 0 (by decide), by decide +kernel⟩

end Settings

end MonkeyLanguage
