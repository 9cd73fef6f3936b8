-- SUMMARY: Programs and what is read back from their texts do the same.
import MonkeyLanguage.Proofs.Alike.Evaluation
import MonkeyLanguage.Proofs.Canonical.Twin

/-!
# Running canonical text

The canonical text of a program does what the program does. What is read back from it differs from
the program in tokens only, and of tokens nothing shows in a run but the literals that printed
functions are made of.
-/

namespace MonkeyLanguage

/-! ## Logs with the same text -/

namespace TraceLog

theorem text?_record (log : TraceLog) (event : TraceEvent) :
    (log.record event).text? =
      if log.isOpen then log.text?.map (· ++ (event.line ++ "\n"))
      else some (event.line ++ "\n") := by
  rw [record]
  split
  · cases hevents : log.events? with
    | none => simp [text?, hevents]
    | some events => simp [text?, hevents, String.join_append]
  · simp [text?]

theorem isOpen_record (log : TraceLog) (event : TraceEvent) : (log.record event).isOpen = true := by
  rw [record]
  split
  case isTrue hopen => exact hopen
  case isFalse => rfl

/-- The logs have the same text, and they are both open or both closed. -/
def SameText (log log' : TraceLog) : Prop :=
  log.text? = log'.text? ∧ log.isOpen = log'.isOpen

theorem SameText.recordAt (host : Host) {log log' : TraceLog} {event event' : TraceEvent}
    (hlevel : event.level = event'.level) (hline : event.line = event'.line)
    (h : log.SameText log') :
    (log.recordAt host.traceLevel event).SameText (log'.recordAt host.traceLevel event') := by
  rw [TraceLog.recordAt, TraceLog.recordAt, ← hlevel]
  split
  · refine ⟨?_, ?_⟩
    · rw [text?_record, text?_record, h.1, h.2, hline]
    · rw [isOpen_record, isOpen_record]
  · exact h

end TraceLog

/-! ## Twins run alike -/

/-- Everything that corresponds is the same, but for tokens. -/
def Correspondence.twins (host : Host) : Correspondence where
  nodes := Node.Twin
  names _ := true
  scopes _ := True
  identities := Eq
  consoles := Eq
  logs := TraceLog.SameText
  host := host
  level' := host.traceLevel
  matches_of_nodes h := h.toMatch
  render_of_nodes h := h.render_eq
  write text h := congrArg (Console.write · text) h
  record hlevel hline h := h.recordAt host hlevel hline

theorem Machine.alike_initial (host : Host) :
    Machine.initial.Alike (.twins host) Machine.initial where
  store := by
    refine ⟨rfl, fun _ _ => trivial, fun _ _ => rfl, fun _ _ _ _ => trivial, fun id _ => ?_⟩
    have hempty : Machine.initial.store.bindings id = [] := by
      rw [Machine.initial, Store.bindings_addScope]
      rfl
    rw [hempty]
    exact .nil
  identities _ := rfl
  console := rfl
  log := ⟨rfl, rfl⟩

/-- What is shown of a value. -/
def Value.shown (value : Value) : ValueType × String :=
  (value.type, value.inspect)

theorem Value.Alike.shown_eq {c : Correspondence} {value value' : Value}
    (h : value.Alike c value') : value.shown = value'.shown := by
  rw [shown, shown, h.type_eq, h.inspect_eq]

/-- The outcomes look the same: there is the same fault, or a result that is shown in the same way,
the console and the trace have the same texts, and in every scope the same names are bound, in the
same order, to values that are shown in the same way. -/
structure Outcome.LooksLike (outcome outcome' : Outcome Value) : Prop where
  result : outcome.result.map Value.shown = outcome'.result.map Value.shown
  written : outcome.written = outcome'.written
  trace : outcome.machine.log.text? = outcome'.machine.log.text?
  scopes : outcome.machine.store.next = outcome'.machine.store.next
  bindings : ∀ id,
    (outcome.machine.store.bindings id).map (fun entry => (entry.1, entry.2.shown)) =
      (outcome'.machine.store.bindings id).map fun entry => (entry.1, entry.2.shown)

theorem Machine.Alike.looksLike {host : Host} {machine machine' : Machine}
    (h : machine.Alike (.twins host) machine') {result result' : Except Fault Value}
    (hresult : result.map Value.shown = result'.map Value.shown) :
    (Outcome.mk result machine).LooksLike ⟨result', machine'⟩ where
  result := hresult
  written := congrArg Console.written h.console
  trace := h.log.1
  scopes := h.store.next
  bindings id :=
    map_eq_of_forall₂ (h.store.bindings_alike (fun _ => rfl) id trivial) fun _ _ hentry => by
      rw [hentry.1, hentry.2.shown_eq]

theorem Eval.Alike.looksLike {host : Host} {computation computation' : Eval Value}
    (h : (Correspondence.twins host).Computes computation computation') :
    (computation.perform .initial).LooksLike (computation'.perform .initial) := by
  have hstart : { Machine.initial with console := .empty } = Machine.initial := rfl
  have hresults := h _ _ (Machine.alike_initial host)
  rw [perform, perform, hstart]
  generalize computation .initial = result at hresults ⊢
  generalize computation' .initial = result' at hresults ⊢
  cases hresults with
  | ok hvalue hfinal => exact hfinal.looksLike (congrArg Except.ok hvalue.shown_eq)
  | error fault hfinal => exact hfinal.looksLike rfl

namespace Settings

variable (settings : Settings)

/-- The outcome of a well-formed program looks the same as that of what is read back from its
text. -/
theorem run_looksLike_of_wellFormed {limit : Numeral.DigitLimit} {program : Node}
    (h : WellFormedProgram limit program) :
    ((settings.run globalScope program).perform .initial).LooksLike
      ((settings.run globalScope
        (Parse.ofSource program.render limit).program).perform .initial) := by
  have htwin := h.twin (Parse.wellFormed_ofSource program.render limit) h.parse_render.2.symm
  exact (alike_run (.twins settings.toHost) settings.depth trivial htwin).looksLike

/-- The text of a program can be run in place of the program. This goes for the programs of all
source texts, at every level of the trace and for every limit on calls. -/
theorem run_render_looksLike (source : String) :
    (Parse.ofSource (Parse.ofSource source).program.render).errors = [] ∧
      ((settings.run globalScope (Parse.ofSource source).program).perform .initial).LooksLike
        ((settings.run globalScope
          (Parse.ofSource (Parse.ofSource source).program.render).program).perform .initial) := by
  have hprogram := Parse.wellFormed_ofSource source Numeral.usualLimit
  exact ⟨hprogram.parse_render.1, settings.run_looksLike_of_wellFormed hprogram⟩

end Settings

end MonkeyLanguage
