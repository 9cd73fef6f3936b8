-- SUMMARY: When a program that is printed one statement to a line is read back.
import MonkeyLanguage.CommandLine.Run
import MonkeyLanguage.Proofs.Canonical.Joints

/-!
# Programs printed in lines

The command line prints a program with a line for each statement, and without the semicolon that
an expression needs before the next statement. A line that starts with a bracket then goes on with
an expression on the line before. Where there is no such line, the program is read back.
-/

namespace MonkeyLanguage

/-! ## Statements that start with brackets -/

/-- The text starts with a bracket that can go on with an expression before it. -/
def OpensBracket (text : String) : Prop :=
  text.toList.head? = some '(' ∨ text.toList.head? = some '['

instance (text : String) : Decidable (OpensBracket text) :=
  inferInstanceAs (Decidable (_ ∨ _))

/-- No statement that is an expression is directly before one that starts with a bracket. -/
def LinesApart : List Node → Prop
  | statement :: next :: rest =>
    (statement.isExpressionStatement = true → ¬ OpensBracket next.render) ∧
      LinesApart (next :: rest)
  | _ => True

instance decidableLinesApart : DecidablePred LinesApart
  | [] => .isTrue trivial
  | [_] => .isTrue trivial
  | _ :: next :: rest =>
    have := decidableLinesApart (next :: rest)
    inferInstanceAs (Decidable ((_ → ¬ _) ∧ _))

theorem linesApart_cons {statement : Node} {rest : List Node} :
    LinesApart (statement :: rest) ↔
      (statement.isExpressionStatement = true → ∀ next ∈ rest.head?, ¬ OpensBracket next.render) ∧
        LinesApart rest := by
  cases rest <;> simp [LinesApart]

/-- The text and its shapes start alike: what can go on with an expression starts with a bracket,
and a bracket goes on with one as a call or a look-up. -/
def OpensAlike (text : String) (spelled : List Shape) : Prop :=
  ∃ c cs shape others, text.toList = c :: cs ∧ spelled = shape :: others ∧
    (shape.1 ∈ Kind.ambiguous → c = '(' ∨ c = '[') ∧ (c = '(' ∨ c = '[' → shape.1 ∈ Kind.joiners)

/-- What an expression or a statement starts with. -/
def Phrase.OpensAlike : Phrase → Prop
  | .expression node => MonkeyLanguage.OpensAlike node.render node.spelling
  | .statement node => MonkeyLanguage.OpensAlike node.render node.spelling
  | _ => True

/-- If the text does not start with such a bracket, then neither do its tokens. -/
theorem OpensAlike.not_ambiguous {text : String} {spelled others : List Shape} {token : Token}
    {ts : List Token} (h : OpensAlike text spelled) (htext : ¬ OpensBracket text)
    (hts : (token :: ts).map Token.shape = spelled ++ others) : token.kind ∉ Kind.ambiguous := by
  obtain ⟨c, cs, shape, rest, hchars, rfl, hbracket, -⟩ := h
  have hshape : token.shape = shape := (List.cons.inj hts).1
  rw [← hshape] at hbracket
  refine fun hkind => htext ?_
  rw [OpensBracket, hchars]
  simpa using hbracket hkind

/-- If the tokens do not go on with an expression, then the text starts with no such bracket. -/
theorem OpensAlike.not_opensBracket {text : String} {spelled : List Shape}
    (h : OpensAlike text spelled) (hhead : ∀ shape ∈ spelled.head?, shape.1 ∉ Kind.joiners) :
    ¬ OpensBracket text := by
  obtain ⟨c, cs, shape, rest, hchars, rfl, -, hjoiner⟩ := h
  refine fun htext => hhead shape rfl (hjoiner ?_)
  rw [OpensBracket, hchars] at htext
  simpa using htext

theorem OpensAlike.append {text : String} {spelled : List Shape} (h : OpensAlike text spelled)
    (more : String) (others : List Shape) : OpensAlike (text ++ more) (spelled ++ others) := by
  obtain ⟨c, cs, shape, rest, htext, rfl, hstart⟩ := h
  exact ⟨c, cs ++ more.toList, shape, rest ++ others, by simp [htext], rfl, hstart⟩

theorem opensAlike_other {text : String} {c : Char} {cs : List Char} (htext : text.toList = c :: cs)
    (hc : c ≠ '(' ∧ c ≠ '[') {shape : Shape} (hkind : shape.1 ∉ Kind.ambiguous)
    (others : List Shape) : OpensAlike text (shape :: others) :=
  ⟨c, cs, shape, others, htext, rfl, fun h => absurd h hkind, fun h => absurd h (by simp [hc])⟩

theorem opensAlike_word {word : String} (h : IsWord word.toList) (kind : Kind)
    (hkind : kind ∉ Kind.ambiguous) (others : List Shape) :
    OpensAlike word ((kind, word) :: others) := by
  obtain ⟨c, rest, heq, hstart, -⟩ := h
  refine opensAlike_other heq ⟨?_, ?_⟩ hkind others <;>
    (rintro rfl; exact absurd hstart (by decide))

theorem WellFormed.opensAlike {limit : Numeral.DigitLimit} {phrase : Phrase}
    (h : WellFormed limit phrase) : phrase.OpensAlike := by
  induction h with
  | identifier hname => exact opensAlike_word hname.1 _ (by decide) _
  | integer hwritten =>
      obtain ⟨hne, hall⟩ := hwritten.digits
      obtain ⟨c, rest, heq⟩ := List.exists_cons_of_ne_nil hne
      have hdigit : c.isDigit = true := hall c (by simp [heq])
      refine opensAlike_other heq ⟨?_, ?_⟩ (by simp [Kind.ambiguous]) _ <;>
        (rintro rfl; exact absurd hdigit (by decide))
  | string =>
      exact opensAlike_other (c := '"') (by simp [Node.render]; rfl) (by decide)
        (by simp [Kind.ambiguous]) _
  | @boolean token value hliteral =>
      have hkeyword : token.literal ∈ keywords := by
        cases value <;> simp [hliteral, keywords]
      refine opensAlike_word (isWord_of_keyword hkeyword) _ ?_ _
      cases value <;> rw [hliteral] <;> decide
  | prefixed => exact ⟨'(', _, _, _, by simp [Node.render]; rfl, rfl, by decide, by decide⟩
  | binary => exact ⟨'(', _, _, _, by simp [Node.render]; rfl, rfl, by decide, by decide⟩
  | conditional =>
      exact opensAlike_other (c := 'i') (by simp [Node.render]; rfl) (by decide) (by decide) _
  | choice =>
      exact opensAlike_other (c := 'i') (by simp [Node.render]; rfl) (by decide) (by decide) _
  | @function token parameters body hliteral =>
      exact opensAlike_other (c := 'f') (by simp [Node.render, hliteral]; rfl) (by decide)
        (by rw [hliteral]; decide) _
  | @call token callee arguments _ _ ih =>
      have hcall := ih.append ("(" ++ Text.commaSeparated (Node.renderAll arguments) ++ ")")
        (Kind.leftParen.symbol :: commaShapes (Node.spellAll arguments) ++ [Kind.rightParen.symbol])
      simpa [Phrase.OpensAlike, Node.render, Node.spelling, String.append_assoc] using hcall
  | array => exact ⟨'[', _, _, _, by simp [Node.render]; rfl, rfl, by decide, by decide⟩
  | hash =>
      exact opensAlike_other (c := '\x7b') (by simp [Node.render]; rfl) (by decide) (by decide) _
  | index => exact ⟨'(', _, _, _, by simp [Node.render]; rfl, rfl, by decide, by decide⟩
  | letStatement hliteral =>
      exact opensAlike_other (c := 'l') (by simp [Node.render, hliteral]; rfl) (by decide)
        (by rw [hliteral]; decide) _
  | returnStatement hliteral =>
      exact opensAlike_other (c := 'r') (by simp [Node.render, hliteral]; rfl) (by decide)
        (by rw [hliteral]; decide) _
  | @expressionStatement token value hvalue ih =>
      simpa [Phrase.OpensAlike, Node.render, Node.spelling, orNothing_of_wellFormed hvalue] using ih
  | _ => trivial

/-! ## Printed lines -/

/-- Statements in lines. -/
def printedLines (statements : List Node) : String :=
  String.join (statements.map fun statement => statement.render ++ "\n")

/-- The end of a line sets any statement apart from the next one. -/
theorem WellFormed.shapes_line {limit : Numeral.DigitLimit} {statement : Node}
    (h : WellFormed limit (.statement statement)) (rest : List Char) :
    shapes (statement.render.toList ++ '\n' :: rest) = statement.spelling ++ shapes rest := by
  have hline := h.spelled ('\n' :: rest) fun _ => apart_cons.2 (by decide)
  rwa [shapes_blank (by decide)] at hline

section

variable {limit : Numeral.DigitLimit} {statements : List Node}
  (h : ∀ statement ∈ statements, WellFormed limit (.statement statement))

include h

theorem shapes_printedLines :
    shapes (printedLines statements).toList = statements.flatMap Node.spelling := by
  induction statements with
  | nil => rfl
  | cons statement rest ih =>
      obtain ⟨hstatement, hrest⟩ := List.forall_mem_cons.1 h
      have hline := hstatement.shapes_line (printedLines rest).toList
      rw [ih hrest] at hline
      simpa [printedLines, String.join_cons, List.flatMap_cons] using hline

/-- The tokens of printed lines are read as the statements, one by one. -/
theorem exists_sequence_lines (hapart : LinesApart statements) {ts : List Token}
    (hts : ts.map Token.shape = statements.flatMap Node.spelling) :
    ∃ others, others.map Node.erase = statements.map Node.erase ∧
      Parser.Sequence limit ts others := by
  induction statements generalizing ts with
  | nil =>
      obtain rfl := List.map_eq_nil_iff.1 hts
      exact ⟨[], rfl, .none⟩
  | cons statement rest ih =>
      obtain ⟨hstatement, hrest⟩ := List.forall_mem_cons.1 h
      obtain ⟨us, vs, rfl, hus, hvs⟩ := List.map_eq_append_iff.1 hts
      -- An expression is read without a semicolon, `let` and `return` bring one.
      obtain ⟨core, semicolons, other, rfl, hother, hread, hmore⟩ :=
        Parser.reparsed_of_wellFormed hstatement (!statement.isExpressionStatement) us
          (by simpa using hus)
      obtain ⟨hnext, hrestApart⟩ := linesApart_cons.1 hapart
      obtain ⟨others, hothers, hsequence⟩ := ih hrest hrestApart hvs
      refine ⟨other :: others, by simp [hother, hothers], .more hread hsequence ?_⟩
      intro hnil token htoken
      have hexpression : statement.isExpressionStatement = true := by simpa [hnil] using hmore
      obtain ⟨ts, rfl⟩ := List.head?_eq_some_iff.1 htoken
      cases rest with
      | nil => cases hvs
      | cons next rest =>
          have hopens : OpensAlike next.render next.spelling :=
            (hrest next List.mem_cons_self).opensAlike
          exact hopens.not_ambiguous (hnext hexpression next rfl) hvs

end

/-- The text is read without errors, as the statements of the program but for the tokens in it. -/
def ReadsBack (limit : Numeral.DigitLimit) (text : String) (program : Node) : Prop :=
  (Parse.ofSource text limit).errors = [] ∧
    (Parse.ofSource text limit).program.statements.length = program.statements.length ∧
      (Parse.ofSource text limit).program.erase = program.erase

/-- Printed lines are read back, if no line goes on with the one before. -/
theorem WellFormedProgram.readsBack_of_linesApart {limit : Numeral.DigitLimit} {program : Node}
    (h : WellFormedProgram limit program) (hapart : LinesApart program.statements) :
    ReadsBack limit (printedLines program.statements) program := by
  cases program with
  | program token statements =>
      obtain ⟨others, hothers, hparse⟩ :
          ∃ others, others.map Node.erase = statements.map Node.erase ∧
            Parse.ofSource (printedLines statements) limit =
              ⟨.program (Feed.ofSource (printedLines statements)).current others, []⟩ := by
        apply Parse.exists_of_sequence
        intro ts hts
        rw [shapes_printedLines h] at hts
        exact exists_sequence_lines h hapart hts
      have hlength : others.length = statements.length := by
        simpa using congrArg List.length hothers
      simp [ReadsBack, Node.statements, hparse, hlength, Node.erase, hothers]
  | _ => exact h.elim

/-! ## Lines that go on with the line before -/

section

variable {limit : Numeral.DigitLimit} {statements : List Node}
  (h : ∀ statement ∈ statements, WellFormed limit (.statement statement))

include h

/-- Without semicolons, no call or look-up gets lost, but there may be more of them. -/
theorem jointsAll_le_joints (ended : Bool) :
    Node.jointsAll statements ≤ joints ended ((statements.flatMap Node.spelling).map Prod.fst) := by
  induction statements generalizing ended with
  | nil => simp [Node.jointsAll]
  | cons statement rest ih =>
      obtain ⟨hstatement, hrest⟩ := List.forall_mem_cons.1 h
      rw [List.flatMap_cons, List.map_append, joints_append, Node.jointsAll]
      refine Nat.add_le_add ?_ (ih hrest _)
      rw [← hstatement.joints_spelling]
      exact joints_false_le ended _

/-- If there are no more of them, then no line goes on with the line before. -/
theorem linesApart_of_joints_le {ended : Bool}
    (hle : joints ended ((statements.flatMap Node.spelling).map Prod.fst) ≤
      Node.jointsAll statements) :
    (ended = true → ∀ next ∈ statements.head?, ¬ OpensBracket next.render) ∧
      LinesApart statements := by
  induction statements generalizing ended with
  | nil => exact ⟨by simp, trivial⟩
  | cons statement rest ih =>
      obtain ⟨hstatement, hrest⟩ := List.forall_mem_cons.1 h
      rw [List.flatMap_cons, List.map_append, joints_append, Node.jointsAll,
        ← hstatement.joints_spelling] at hle
      have hrestLe := jointsAll_le_joints hrest
        (endedAfter ended (statement.spelling.map Prod.fst))
      have hstatementLe := joints_false_le ended (statement.spelling.map Prod.fst)
      have hrestEq : joints (endedAfter ended (statement.spelling.map Prod.fst))
          ((rest.flatMap Node.spelling).map Prod.fst) ≤ Node.jointsAll rest := by omega
      obtain ⟨hnext, hapart⟩ := ih hrest hrestEq
      refine ⟨?_, linesApart_cons.2 ⟨fun hexpression => hnext ?_, hapart⟩⟩
      · rintro rfl next hfirst
        obtain rfl := Option.some.inj hfirst
        have hopens : OpensAlike statement.render statement.spelling := hstatement.opensAlike
        refine hopens.not_opensBracket fun shape hshape => ?_
        have hstatementEq : joints true (statement.spelling.map Prod.fst) ≤
            joints false (statement.spelling.map Prod.fst) := by omega
        exact head_not_joiner hstatementEq shape.1 (by simp [Option.mem_def.1 hshape])
      · cases hstatement with
        | expressionStatement hvalue => exact hvalue.endedAfter_expression ended
        | _ => cases hexpression

end

/-- Printed lines are read back exactly if no line goes on with the one before. -/
theorem WellFormedProgram.readsBack_printedLines {limit : Numeral.DigitLimit} {program : Node}
    (h : WellFormedProgram limit program) :
    ReadsBack limit (printedLines program.statements) program ↔ LinesApart program.statements := by
  refine ⟨fun hback => ?_, h.readsBack_of_linesApart⟩
  cases program with
  | program token statements =>
      obtain ⟨herrors, -, herase⟩ := hback
      have hshown := Parse.joints_shapes herrors
      rw [← Node.joints_erase, herase, Node.joints_erase, Node.statements,
        shapes_printedLines h] at hshown
      exact (linesApart_of_joints_le h hshown.le).2
  | _ => exact h.elim

/-! ## Printing by the command line -/

namespace CommandLine

/-- A disk with one text file on it. -/
def Disk.single (path content : String) : Disk := fun other =>
  if other = path then some (.text content) else none

-- Printing is about any parse, so none is worked out.
attribute [local irreducible] Parse.ofSource

/-- The command line prints each program that is read without errors in lines, and these lines are
read back exactly if no line that starts with a bracket is behind an expression. -/
theorem run_printTree {arguments : List String} {options : Options} {path content : String}
    {disk : Disk} (hoptions : readOptions arguments = .ok options)
    (hhelp : options.showHelp = false) (hprint : options.printTree = true)
    (hfile : options.file? = some path) (hdisk : disk (normalPath path) = some (.text content))
    (input user : String) :
    let parse := Parse.ofSource (String.ofList (unifyLineEnds content.toList))
    let report := run arguments disk input user
    parse.errors = [] →
      report = ⟨some 0, printedLines parse.program.statements, "", none⟩ ∧
        (ReadsBack Numeral.usualLimit report.output parse.program ↔
          LinesApart parse.program.statements) := by
  intro parse report herrors
  have hreport : report = ⟨some 0, printedLines parse.program.statements, "", none⟩ := by
    simp [report, run, hoptions, hhelp, hfile, runFile, hdisk, runProgramText, hprint, printTree,
      parse, herrors, printedLines]
  refine ⟨hreport, ?_⟩
  rw [hreport]
  exact (Parse.wellFormed_ofSource _ _).readsBack_printedLines

/-- Two names in lines of their own are read back. -/
theorem run_printTree_names :
    let report := run ["--print-ast", "program.monkey"] (.single "program.monkey" "a; b") "" ""
    report.exit? = some 0 ∧ report.output = "a\nb\n" ∧
      ReadsBack Numeral.usualLimit report.output (Parse.ofSource "a; b").program := by
  have hoptions : readOptions ["--print-ast", "program.monkey"] =
      .ok { printTree := true, program? := some "program.monkey" } := rfl
  have hdisk : Disk.single "program.monkey" "a; b" (normalPath "program.monkey") =
      some (.text "a; b") := by decide +kernel
  have hunified : String.ofList (unifyLineEnds "a; b".toList) = "a; b" := by decide +kernel
  have hprinted := run_printTree hoptions rfl rfl rfl hdisk "" ""
  rw [hunified] at hprinted
  obtain ⟨hreport, hback⟩ := hprinted (by decide +kernel)
  have hapart : LinesApart (Parse.ofSource "a; b").program.statements := by decide +kernel
  exact ⟨by rw [hreport], by decide +kernel, hback.2 hapart⟩

/-- A negative number in a line of its own is read as the argument of a call. -/
theorem not_readsBack_negative :
    let report := run ["--print-ast", "program.monkey"] (.single "program.monkey" "a; -b") "" ""
    (Parse.ofSource "a; -b").errors = [] ∧ report.output = "a\n(-b)\n" ∧
      ¬ ReadsBack Numeral.usualLimit report.output (Parse.ofSource "a; -b").program := by
  refine ⟨by decide +kernel, by decide +kernel, ?_⟩
  rintro ⟨-, hlength, -⟩
  revert hlength
  decide +kernel

end CommandLine

end MonkeyLanguage
