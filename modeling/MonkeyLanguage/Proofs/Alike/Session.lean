-- SUMMARY: What is typed line by line does what the same lines do as one source.
import MonkeyLanguage.CommandLine.Options
import MonkeyLanguage.Proofs.Alike.Places
import MonkeyLanguage.Proofs.Grammar.Joining
import MonkeyLanguage.Shell

/-!
# Sessions

A session runs each line by itself, in a scope that all of them share. If no statement of any line
comes to an error, to a returned value or to a fault, then nothing shows that the lines were run one
by one: the source in which they stand with semicolons between them writes the same texts and leaves
the same bindings. Lines that are blank or have parse errors leave no trace in a session.
-/

namespace MonkeyLanguage

open Eval

/-! ## Quiet statements -/

namespace Settings

variable (settings : Settings) (scope : ScopeId)

/-- Statements are evaluated one after the other without a fault, and none of them comes to an error
or to a returned value. -/
def quiet : List Node → Machine → Bool
  | [], _ => true
  | statement :: rest, machine =>
    match settings.evaluate scope statement machine with
    | .ok value after => !value.isSignal && quiet rest after
    | .error _ _ => false

/-- The machine on which the statements of a program are evaluated. -/
def started (program : Node) (machine : Machine) : Machine :=
  { machine with console := .empty }.trace settings.traceLevel
    (.started program.statements.length)

/-- The value of statements, the first of them behind others of a given value. -/
abbrev sequence (last : Value) (statements : List Node) : Eval Value :=
  evaluateSequence settings.toHost settings.call scope last statements

theorem sequence_cons (last : Value) (statement : Node) (rest : List Node) :
    settings.sequence scope last (statement :: rest) = (do
      let value ← settings.evaluate scope statement
      if value.isSignal then pure value else settings.sequence scope value rest) := by
  rw [sequence, evaluateSequence]
  rfl

variable {settings scope} {machine after : Machine} {last value : Value}

theorem exists_sequence_of_quiet {statements : List Node}
    (h : settings.quiet scope statements machine = true) (hlast : last.isSignal = false) :
    ∃ value after, settings.sequence scope last statements machine = .ok value after ∧
      value.isSignal = false := by
  induction statements generalizing machine last with
  | nil => exact ⟨last, machine, rfl, hlast⟩
  | cons statement rest ih =>
      rw [quiet] at h
      rw [sequence_cons]
      cases hstatement : settings.evaluate scope statement machine with
      | error fault after =>
          rw [hstatement] at h
          cases h
      | ok value after =>
          rw [hstatement] at h
          obtain ⟨hsignal, hrest⟩ := Bool.and_eq_true_iff.1 h
          rw [Bool.not_eq_true'] at hsignal
          rw [ok_bind hstatement, hsignal]
          exact ih hrest hsignal

/-- Statements go on behind others that come to no signal. -/
theorem sequence_append {statements : List Node}
    (h : settings.sequence scope last statements machine = .ok value after)
    (hsignal : value.isSignal = false) (more : List Node) :
    settings.sequence scope last (statements ++ more) machine =
      settings.sequence scope value more after := by
  induction statements generalizing machine last with
  | nil =>
      cases h
      rfl
  | cons statement rest ih =>
      rw [sequence_cons] at h
      rw [List.cons_append, sequence_cons]
      cases hstatement : settings.evaluate scope statement machine with
      | error fault middle =>
          rw [error_bind hstatement] at h
          cases h
      | ok first middle =>
          rw [ok_bind hstatement] at h ⊢
          cases hfirst : first.isSignal with
          | true =>
              rw [hfirst] at h
              cases h
              rw [hfirst] at hsignal
              cases hsignal
          | false =>
              rw [hfirst] at h
              exact ih h

/-- A program whose statements come to a value that is no signal ends with it. -/
theorem perform_run {token : Token} {statements : List Node}
    (h : settings.sequence scope .null statements
      (settings.started (.program token statements) machine) = .ok value after)
    (hsignal : value.isSignal = false) :
    (settings.run scope (.program token statements)).perform machine = ⟨.ok value, after⟩ := by
  have hreceived : value.received = value := by
    cases value <;> first | rfl | cases hsignal
  have hprogram : settings.evaluate scope (.program token statements)
      (settings.started (.program token statements) machine) = .ok value after := by
    rw [evaluate, MonkeyLanguage.evaluate, ok_bind h, hreceived]
    rfl
  have hstarted : Eval.trace settings.traceLevel
      (.started (Node.program token statements).statements.length)
      { machine with console := .empty } =
        .ok () (settings.started (.program token statements) machine) := rfl
  have hrun : settings.run scope (.program token statements) { machine with console := .empty } =
      .ok value after := by
    rw [run, ok_bind hstarted, ok_bind hprogram]
    cases value <;> first | rfl | cases hsignal
  rw [Eval.perform, hrun]

/-- Statements that differ in places only come to signals alike, whatever was written before. -/
theorem exists_sequence_of_alike {statements statements' : List Node}
    (hstatements : statements.map Node.unplaced = statements'.map Node.unplaced)
    {earlier : List String} {machine' : Machine}
    (hmachine : machine.Alike (.places settings.toHost earlier) machine')
    (h : settings.sequence scope .null statements machine = .ok value after)
    (hsignal : value.isSignal = false) {last' : Value} (hlast' : last'.isSignal = false) :
    ∃ value' after', settings.sequence scope last' statements' machine' = .ok value' after' ∧
      value'.isSignal = false ∧ after.Alike (.places settings.toHost earlier) after' := by
  cases statements' with
  | nil =>
      obtain rfl : statements = [] := by simpa using hstatements
      cases h
      exact ⟨last', machine', rfl, hlast', hmachine⟩
  | cons statement' rest' =>
      -- The value given at first is that of no statement here, so it may as well be null.
      have hnull : settings.sequence scope last' (statement' :: rest') =
          settings.sequence scope .null (statement' :: rest') := by
        rw [sequence_cons, sequence_cons]
      have halike : (Correspondence.places settings.toHost earlier).Computes
          (settings.sequence scope .null statements)
          (settings.sequence scope .null (statement' :: rest')) :=
        alike_sequence (callsAlike _ settings.depth) trivial statements
          (Node.forall₂_map_eq.2 hstatements) .null
      have hresults := halike machine machine' hmachine
      rw [h] at hresults
      rw [hnull]
      generalize settings.sequence scope .null (statement' :: rest') machine' = result at hresults ⊢
      cases hresults with
      | ok hvalue hafter => exact ⟨_, _, rfl, hvalue.isSignal_eq ▸ hsignal, hafter⟩

end Settings

/-! ## Lines that are run -/

theorem Parse.exists_program (source : String) (limit : Numeral.DigitLimit) :
    ∃ token statements, (Parse.ofSource source limit).program = .program token statements := by
  rw [Parse.ofSource, Parse.ofFeed]
  split <;> exact ⟨_, _, rfl⟩

namespace Shell

/-- The text of an entry that a program wrote. -/
def Entry.written? : Entry → Option String
  | written text => some text
  | _ => none

/-- The texts that programs wrote, one by one. -/
def Execution.texts (execution : Execution) : List String :=
  execution.entries.filterMap Entry.written?

/-- Two executions have the same effect: programs wrote the same texts, the machine after them is
the same, and so is the way they ended. They may have shown other prompts and parse errors. -/
structure Execution.SameEffect (execution execution' : Execution) : Prop where
  texts : execution.texts = execution'.texts
  machine : execution.machine = execution'.machine
  ending : execution.ending = execution'.ending

/-- Whether a line is run: it is not blank and has no parse errors. -/
def isRun (line : String) : Bool :=
  !Text.allBlank line && (Parse.ofSource line).errors.isEmpty

theorem isRun_iff {line : String} :
    isRun line = true ↔ Text.allBlank line = false ∧ (Parse.ofSource line).errors = [] := by
  simp [isRun]

/-- Lines are run one after the other, and their statements come to no error, to no returned value
and to no fault. -/
def quiet (settings : Settings) (scope : ScopeId) : List String → Machine → Bool
  | [], _ => true
  | line :: rest, machine =>
    let program := (Parse.ofSource line).program
    settings.quiet scope program.statements (settings.started program machine) &&
      quiet settings scope rest (executeLine settings scope line machine).machine

/-- A line without the line feed at its end, if there is one. -/
def withoutLineFeed (line : String) : String :=
  String.ofList (CommandLine.dropFinalLineFeed line.toList)

section

variable (settings : Settings) (scope : ScopeId) {line : String} {machine : Machine}

theorem filterMap_written_prompt (entries : List Entry) :
    (Entry.prompt :: entries).filterMap Entry.written? = entries.filterMap Entry.written? := rfl

/-- After a line that ends without a fault the others go on. -/
theorem executeLines_cons (rest : List String)
    (h : ∀ fault, (executeLine settings scope line machine).ending ≠ .faulted fault) :
    let first := executeLine settings scope line machine
    let others := executeLines settings scope rest first.machine
    (executeLines settings scope (line :: rest) machine).texts = first.texts ++ others.texts ∧
      (executeLines settings scope (line :: rest) machine).machine = others.machine ∧
        (executeLines settings scope (line :: rest) machine).ending = others.ending := by
  rw [executeLines]
  generalize executeLine settings scope line machine = first at h ⊢
  obtain ⟨entries, after, ending⟩ := first
  cases ending with
  | faulted fault => exact absurd rfl (h fault)
  | _ =>
      refine ⟨?_, rfl, rfl⟩
      simp only [Execution.texts, List.cons_append, filterMap_written_prompt, List.filterMap_append]

/-- A line that is not run changes nothing, and no program writes. -/
theorem executeLine_of_not_isRun (machine : Machine) (h : isRun line = false) :
    (executeLine settings scope line machine).texts = [] ∧
      (executeLine settings scope line machine).machine = machine ∧
        ∀ fault, (executeLine settings scope line machine).ending ≠ .faulted fault := by
  rw [executeLine]
  split
  case isTrue => exact ⟨rfl, rfl, nofun⟩
  case isFalse hblank =>
    have herrors : (Parse.ofSource line).errors.isEmpty = false := by
      simpa [isRun, hblank] using h
    rw [execute, if_neg (by simp [herrors])]
    refine ⟨?_, rfl, nofun⟩
    simp [Execution.texts, List.filterMap_map, Entry.written?, Function.comp_def]

/-- Lines that are not run can be left out. -/
theorem executeLines_filter (lines : List String) (machine : Machine) :
    (executeLines settings scope lines machine).SameEffect
      (executeLines settings scope (lines.filter isRun) machine) := by
  induction lines generalizing machine with
  | nil => exact ⟨rfl, rfl, rfl⟩
  | cons line rest ih =>
      cases hrun : isRun line with
      | false =>
          obtain ⟨htexts, hmachine, hending⟩ := executeLine_of_not_isRun settings scope machine hrun
          obtain ⟨htexts', hmachine', hending'⟩ :=
            executeLines_cons settings scope rest hending
          have hrest := ih machine
          rw [hmachine] at htexts' hmachine' hending'
          rw [List.filter_cons_of_neg (by simp [hrun])]
          exact ⟨by rw [htexts', htexts, List.nil_append, hrest.texts],
            hmachine'.trans hrest.machine, hending'.trans hrest.ending⟩
      | true =>
          rw [List.filter_cons_of_pos hrun]
          by_cases hending :
            ∀ fault, (executeLine settings scope line machine).ending ≠ .faulted fault
          · obtain ⟨htexts, hmachine, hending'⟩ :=
              executeLines_cons settings scope rest hending
            obtain ⟨htexts', hmachine', hending''⟩ :=
              executeLines_cons settings scope (rest.filter isRun) hending
            have hrest := ih (executeLine settings scope line machine).machine
            exact ⟨by rw [htexts, htexts', hrest.texts], by rw [hmachine, hmachine', hrest.machine],
              by rw [hending', hending'', hrest.ending]⟩
          · -- After a fault neither goes on.
            simp only [ne_eq, not_forall, not_not] at hending
            obtain ⟨fault, hfault⟩ := hending
            rw [executeLines, executeLines]
            simp only [hfault]
            exact ⟨rfl, rfl, rfl⟩

end

/-! ## Lines one by one and in one source -/

section

variable {settings : Settings} {scope : ScopeId} {machine after : Machine} {value : Value}

/-- What the execution of a source shows whose statements come to a value that is no signal. -/
theorem execute_of_sequence {source : String} (herrors : (Parse.ofSource source).errors = [])
    (h : settings.sequence scope .null (Parse.ofSource source).program.statements
      (settings.started (Parse.ofSource source).program machine) = .ok value after)
    (hsignal : value.isSignal = false) :
    execute settings scope source machine =
      ⟨after.console.texts.toList.map Entry.written ++ [.result value], after, .finished⟩ := by
  obtain ⟨token, statements, hprogram⟩ := Parse.exists_program source Numeral.usualLimit
  rw [hprogram] at h
  have hperform := Settings.perform_run h hsignal
  rw [Node.statements] at hperform
  rw [execute, if_pos (by simp [herrors]), hprogram, hperform]

theorem texts_execution (texts : List String) :
    (Execution.mk (texts.map Entry.written ++ [.result value]) after .finished).texts = texts := by
  have hwritten : Entry.written? ∘ Entry.written = some := rfl
  simp [Execution.texts, List.filterMap_map, hwritten, Entry.written?]

/-- On a machine to which some texts were written before, the statements of quiet lines in a row do
what the session does with the lines one by one. -/
theorem exists_sequence_of_quiet {lines : List String} (hrun : ∀ line ∈ lines, isRun line = true)
    (hquiet : quiet settings scope lines machine = true) {earlier : List String}
    {machine' : Machine}
    (hmachine : { machine with console := .empty }.Alike
      (.places settings.toHost earlier) machine')
    {last : Value} (hlast : last.isSignal = false) {statements : List Node}
    (hstatements : (lines.flatMap fun line =>
      (Parse.ofSource line).program.statements.map Node.unplaced) = statements.map Node.unplaced) :
    (executeLines settings scope lines machine).ending = .finished ∧
      ∃ value after, settings.sequence scope last statements machine' = .ok value after ∧
        value.isSignal = false ∧
          { (executeLines settings scope lines machine).machine with console := .empty }.Alike
            (.places settings.toHost
              (earlier ++ (executeLines settings scope lines machine).texts)) after := by
  induction lines generalizing machine machine' earlier last statements with
  | nil =>
      obtain rfl : statements = [] := by simpa using hstatements.symm
      have htexts : (executeLines settings scope [] machine).texts = [] := rfl
      rw [htexts, List.append_nil]
      exact ⟨rfl, last, machine', rfl, hlast, hmachine⟩
  | cons line rest ih =>
      obtain ⟨hline, hrest⟩ := List.forall_mem_cons.1 hrun
      obtain ⟨hblank, herrors⟩ := isRun_iff.1 hline
      obtain ⟨hlineQuiet, hrestQuiet⟩ := Bool.and_eq_true_iff.1 hquiet
      -- In the session, the line comes to a value that is no signal.
      obtain ⟨value, after, hsequence, hsignal⟩ :=
        Settings.exists_sequence_of_quiet hlineQuiet (rfl : Value.null.isSignal = false)
      have hfirst : executeLine settings scope line machine =
          ⟨after.console.texts.toList.map Entry.written ++ [.result value], after, .finished⟩ := by
        rw [executeLine, if_neg (by simp [hblank]), execute_of_sequence herrors hsequence hsignal]
      have hgoesOn :
          ∀ fault, (executeLine settings scope line machine).ending ≠ .faulted fault := by
        simp [hfirst]
      obtain ⟨htexts, hfinal, hending⟩ := executeLines_cons settings scope rest hgoesOn
      rw [hfirst] at hrestQuiet htexts hfinal hending
      -- In the one source, its statements come to such a value too, and the others go on.
      rw [List.flatMap_cons] at hstatements
      obtain ⟨front, back, rfl, hfront, hback⟩ := List.map_eq_append_iff.1 hstatements.symm
      obtain ⟨value', after', hsequence', hsignal', hafter⟩ :=
        Settings.exists_sequence_of_alike hfront.symm (hmachine.trace_left _) hsequence hsignal
          hlast
      obtain ⟨hfinished, value'', after'', hmore, hsignal'', hlater⟩ :=
        ih hrest hrestQuiet hafter.cleared hsignal' hback.symm
      rw [texts_execution] at htexts
      rw [hending, hfinal, htexts, ← List.append_assoc,
        Settings.sequence_append hsequence' hsignal']
      exact ⟨hfinished, value'', after'', hmore, hsignal'', hlater⟩

end

/-- The scope of a session. -/
def sessionScope : ScopeId := Machine.initial.store.next

/-- The machine of a session before its first line: nothing has run, and its scope is new. -/
def opened : Machine := { Machine.initial with store := Machine.initial.store.addScope none }

theorem alike_opened (host : Host) : opened.Alike (.places host []) opened where
  store := by
    refine ⟨rfl, fun _ _ => trivial, fun _ _ => rfl, fun _ _ _ _ => trivial, fun id _ => ?_⟩
    have hempty : opened.store.bindings id = [] := by
      rw [opened, Store.bindings_addScope, Machine.initial, Store.bindings_addScope]
      rfl
    rw [hempty]
    exact .nil
  identities _ := rfl
  console := rfl
  log := trivial

theorem shapes_withoutLineFeed {line : String} (h : Closed line.toList) :
    shapes (withoutLineFeed line).toList = shapes line.toList ∧
      Closed (withoutLineFeed line).toList := by
  rw [withoutLineFeed, String.toList_ofList, CommandLine.dropFinalLineFeed]
  split
  case isFalse => exact ⟨rfl, h⟩
  case isTrue hlast =>
    have hsplit : line.toList.dropLast ++ ['\n'] = line.toList :=
      List.dropLast_append_getLast? _ hlast
    have hfront : Closed line.toList.dropLast := by
      rw [← hsplit, Closed, List.count_append] at h
      simpa [Closed] using h
    have halone : StandsAlone ['\n'] := by simp [StandsAlone, isWordPart]
    have happend := shapes_append hfront halone
    rw [hsplit] at happend
    have hnone : shapes ['\n'] = [] := rfl
    exact ⟨by rw [happend, hnone, List.append_nil], hfront⟩

/-- A line that is run can be a part of one source, without its line feed. -/
theorem sentence_withoutLineFeed {line : String} (hrun : isRun line = true)
    (hclosed : Closed line.toList) : Sentence Numeral.usualLimit (withoutLineFeed line) := by
  obtain ⟨hshapes, hfront⟩ := shapes_withoutLineFeed hclosed
  obtain ⟨hblank, herrors⟩ := isRun_iff.1 hrun
  refine ⟨hfront, fun hall => ?_, (Parse.unplaced_congr _ hshapes).1.trans herrors⟩
  have hline : Text.allBlank line := shapes_eq_nil_iff.1 (hshapes ▸ shapes_eq_nil_iff.2 hall)
  rw [hline] at hblank
  cases hblank

/-- Lines that are typed one by one do what they do as one source, with semicolons between them:
the same texts are written and the same bindings are left, but for the places of tokens in the code
of functions. In a session, blank lines and lines with parse errors may come in anywhere. -/
theorem executeLines_joined (settings : Settings) {typed : List String}
    (hrun : ∀ line ∈ typed, isRun line = true)
    (heven : ∀ line ∈ typed, Even (line.toList.count '"'))
    (hquiet : quiet settings sessionScope typed opened = true) :
    let session := executeLines settings sessionScope typed opened
    let single := execute settings sessionScope (";".intercalate (typed.map withoutLineFeed)) opened
    session.ending = .finished ∧ single.ending = .finished ∧ single.texts = session.texts ∧
      single.machine.store.unplaced = session.machine.store.unplaced ∧
        ∀ input, ((lines input.toList).map String.ofList).filter isRun = typed →
          (Shell.session settings input .initial).SameEffect session := by
  intro session single
  have hsentences : ∀ source ∈ typed.map withoutLineFeed, Sentence Numeral.usualLimit source :=
    List.forall_mem_map.2 fun line hline =>
      sentence_withoutLineFeed (hrun line hline) (heven line hline)
  obtain ⟨herrors, hstatements⟩ := Parse.ofSource_joined hsentences
  have hlines : (typed.flatMap fun line =>
      (Parse.ofSource line).program.statements.map Node.unplaced) =
        (Parse.ofSource (";".intercalate (typed.map withoutLineFeed))).program.statements.map
          Node.unplaced := by
    rw [hstatements, List.flatMap_map]
    refine List.flatMap_congr fun line hline => ?_
    obtain ⟨-, hprogram⟩ := Parse.unplaced_congr Numeral.usualLimit
      (shapes_withoutLineFeed (heven line hline)).1
    rw [← Node.statements_unplaced, ← Node.statements_unplaced, hprogram]
  obtain ⟨hending, value, after, hsequence, hsignal, halike⟩ :=
    exists_sequence_of_quiet hrun hquiet ((alike_opened settings.toHost).trace_right _)
      (rfl : Value.null.isSignal = false) hlines
  have hsingle : single =
      ⟨after.console.texts.toList.map Entry.written ++ [.result value], after, .finished⟩ :=
    execute_of_sequence herrors hsequence hsignal
  refine ⟨hending, by rw [hsingle], ?_, ?_, fun input hinput => ?_⟩
  · rw [hsingle, texts_execution]
    simpa [Correspondence.places, Console.empty] using halike.console
  · rw [hsingle]
    exact halike.store.unplaced_eq.symm
  · subst hinput
    exact executeLines_filter settings sessionScope _ opened

/-- Two lines, of which the second calls a function that the first defines. -/
def definitionAndCall : List String := ["let f = fn(x) \x7b println(x) \x7d\n", "f(8)\n"]

/-- A function that one line defines is called on the next one. -/
theorem executeLines_joined_call :
    (executeLines {} sessionScope definitionAndCall opened).texts = ["8\n"] ∧
      (execute {} sessionScope (";".intercalate (definitionAndCall.map withoutLineFeed))
        opened).texts = ["8\n"] ∧
      (execute {} sessionScope (";".intercalate (definitionAndCall.map withoutLineFeed))
          opened).machine.store.unplaced =
        (executeLines {} sessionScope definitionAndCall opened).machine.store.unplaced := by
  have hrun : ∀ line ∈ definitionAndCall, isRun line = true := by decide +kernel
  have heven : ∀ line ∈ definitionAndCall, Even (line.toList.count '"') := by decide +kernel
  have hquiet : quiet {} sessionScope definitionAndCall opened = true := by decide +kernel
  have hwritten : (executeLines {} sessionScope definitionAndCall opened).texts = ["8\n"] := by
    decide +kernel
  obtain ⟨-, -, htexts, hstore, -⟩ := executeLines_joined {} hrun heven hquiet
  exact ⟨hwritten, htexts.trans hwritten, hstore⟩

end Shell

end MonkeyLanguage
