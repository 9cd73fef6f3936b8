-- SUMMARY: When the printed form of a function is read back.
import MonkeyLanguage.Proofs.Canonical.Lines
import MonkeyLanguage.Value.Inspect

/-!
# Printed functions

A function is printed with a line for each statement of its body, and like a program that is printed
in lines it does without the semicolons that expressions need before the next statement. So it is
read back under the same condition.
-/

namespace MonkeyLanguage

/-- The program that is a function and nothing else. -/
def Node.functionProgram (parameters : List Node) (body : Node) : Node :=
  .program .erased [.expressionStatement .erased (.function .erased parameters body)]

/-- A block with a line for each statement. -/
def printedBlock (statements : List Node) : String :=
  "\x7b\n" ++ "\n".intercalate (statements.map Node.render) ++ "\n\x7d"

/-- The shapes of the tokens in such a block. -/
def blockShapes (statements : List Node) : List Shape :=
  Kind.leftBrace.symbol :: statements.flatMap Node.spelling ++ [Kind.rightBrace.symbol]

/-- The shapes of the tokens in a printed function. -/
def functionShapes (parameters statements : List Node) : List Shape :=
  (.functionWord, "fn") :: Kind.leftParen.symbol :: commaShapes (Node.spellAll parameters) ++
    Kind.rightParen.symbol :: blockShapes statements

theorem Node.renderAll_eq_map (nodes : List Node) : renderAll nodes = nodes.map render := by
  induction nodes with
  | nil => rfl
  | cons node nodes ih => rw [renderAll, ih, List.map_cons]

theorem Value.inspectFunction_eq (parameters : List Node) (body : Node) :
    inspectFunction parameters body =
      "fn" ++ "(" ++ Text.commaSeparated (Node.renderAll parameters) ++ ") " ++
        printedBlock body.statements := by
  rw [Node.renderAll_eq_map]
  simp only [inspectFunction, printedBlock, String.append_assoc]
  rfl

section

variable {limit : Numeral.DigitLimit} {statements : List Node}
  (h : ∀ statement ∈ statements, WellFormed limit (.statement statement))

include h

theorem shapes_lines (rest : List Char) :
    shapes (("\n".intercalate (statements.map Node.render)).toList ++ '\n' :: rest) =
      statements.flatMap Node.spelling ++ shapes rest := by
  induction statements with
  | nil =>
      have hblank : shapes ('\n' :: rest) = shapes rest := shapes_blank (by decide) rest
      simpa using hblank
  | cons statement others ih =>
      obtain ⟨hstatement, hothers⟩ := List.forall_mem_cons.1 h
      cases others with
      | nil => simpa using hstatement.shapes_line rest
      | cons next others =>
          have hline := hstatement.shapes_line
            (("\n".intercalate ((next :: others).map Node.render)).toList ++ '\n' :: rest)
          rw [ih hothers] at hline
          simpa [-String.toList_intercalate, String.intercalate_cons_cons] using hline

theorem spells_printedBlock : Spells (printedBlock statements) (blockShapes statements) := by
  intro rest _
  have hlines := shapes_lines h ('\x7d' :: rest)
  have htext : (printedBlock statements).toList ++ rest = '\x7b' :: '\n' ::
      (("\n".intercalate (statements.map Node.render)).toList ++ '\n' :: '\x7d' :: rest) := by
    simp [-String.toList_intercalate, printedBlock]
  rw [htext, shapes_delimiter (by decide) (by decide), shapes_blank (by decide), hlines,
    shapes_delimiter (by decide) (by decide)]
  simp [blockShapes, Kind.ofSymbol?]

/-- A block in lines is read as the statements, if no line goes on with the one before. -/
theorem exists_block (token : Token) (hapart : LinesApart statements) {ts : List Token}
    (hts : ts.map Token.shape = blockShapes statements) :
    ∃ other, other.erase = (Node.block token statements).erase ∧
      Parser.ReadsBlock limit ts other := by
  obtain ⟨opening, us, closing, rfl, hopen, hus, hclose⟩ := exists_bracketed hts
  obtain ⟨others, hothers, hsequence⟩ := exists_sequence_lines h hapart hus
  refine ⟨_, ?_, hsequence.readsBlock hopen hclose⟩
  simp [Node.erase, hothers]

end

/-- The body of a printed function has no more joints than the whole. -/
theorem joints_body_le (parameters statements : List Node) :
    ∃ ended, joints ended ((statements.flatMap Node.spelling).map Prod.fst) ≤
      joints false ((functionShapes parameters statements).map Prod.fst) := by
  obtain ⟨front, hfront⟩ : ∃ front, functionShapes parameters statements =
      front ++ (statements.flatMap Node.spelling ++ [Kind.rightBrace.symbol]) :=
    ⟨(.functionWord, "fn") :: Kind.leftParen.symbol :: commaShapes (Node.spellAll parameters) ++
      [Kind.rightParen.symbol, Kind.leftBrace.symbol], by simp [functionShapes, blockShapes]⟩
  refine ⟨endedAfter false (front.map Prod.fst), ?_⟩
  rw [hfront, List.map_append, List.map_append, joints_append, joints_append]
  omega

/-- A function with such parameters and such a body can be written down. -/
def WrittenCode (limit : Numeral.DigitLimit) (parameters : List Node) (body : Node) : Prop :=
  (∀ parameter ∈ parameters, WellFormed limit (.parameter parameter)) ∧
    WellFormed limit (.block body)

namespace WrittenCode

variable {limit : Numeral.DigitLimit} {parameters : List Node} {body : Node}

theorem shapes_inspectFunction (h : WrittenCode limit parameters body) :
    shapes (Value.inspectFunction parameters body).toList =
      functionShapes parameters body.statements := by
  obtain ⟨hparameters, hbody⟩ := h
  cases hbody with
  | block hstatements =>
      have hword : "fn" ∈ keywords := by decide
      have hspells := spells_function hword
        (forall_spellAll fun parameter hmem => (hparameters parameter hmem).spelled)
        (spells_printedBlock hstatements) [] apart_nil
      rw [List.append_nil, shapes_nil, List.append_nil] at hspells
      rw [Value.inspectFunction_eq]
      exact hspells

/-- A printed function is read back, if no line of its body goes on with the one before. -/
theorem readsBack_of_linesApart (h : WrittenCode limit parameters body)
    (hapart : LinesApart body.statements) :
    ReadsBack limit (Value.inspectFunction parameters body)
      (.functionProgram parameters body) := by
  obtain ⟨first, node, hnode, hparse⟩ :
      ∃ first node, node.erase = (Node.function .erased parameters body).erase ∧
        Parse.ofSource (Value.inspectFunction parameters body) limit =
          ⟨.program (Feed.ofSource (Value.inspectFunction parameters body)).current
            [.expressionStatement first node], []⟩ := by
    apply Parse.exists_of_expression
    intro ts hts
    rw [h.shapes_inspectFunction] at hts
    obtain ⟨hparameters, hbody⟩ := h
    cases hbody with
    | @block token statements hstatements =>
        obtain ⟨other, hother, hread⟩ := Parser.exists_function
          (fun parameter hmem => Parser.reparsed_of_wellFormed (hparameters parameter hmem))
          (fun _ => exists_block hstatements token hapart) hts
        exact ⟨other, hother, hread.readsExpression (by decide)⟩
  rw [ReadsBack, hparse]
  exact ⟨rfl, rfl, by simp [Node.functionProgram, Node.erase, hnode]⟩

/-- A printed function is read back exactly if no line of its body goes on with the one before. -/
theorem readsBack_inspectFunction (h : WrittenCode limit parameters body) :
    ReadsBack limit (Value.inspectFunction parameters body) (.functionProgram parameters body) ↔
      LinesApart body.statements := by
  refine ⟨fun hback => ?_, h.readsBack_of_linesApart⟩
  obtain ⟨herrors, -, herase⟩ := hback
  have hshown := Parse.joints_shapes herrors
  rw [← Node.joints_erase, herase, Node.joints_erase, h.shapes_inspectFunction] at hshown
  obtain ⟨-, hbody⟩ := h
  cases hbody with
  | @block token statements hstatements =>
      obtain ⟨ended, hle⟩ := joints_body_le parameters statements
      have hbody : (Node.functionProgram parameters (.block token statements)).joints =
          Node.jointsAll statements := by
        simp [Node.functionProgram, Node.joints, Node.jointsAll]
      exact (linesApart_of_joints_le hstatements (hle.trans (hshown.trans hbody).le)).2

end WrittenCode

end MonkeyLanguage
