-- SUMMARY: Programs with semicolons between them are read one after the other.
import MonkeyLanguage.Proofs.Grammar.Acceptance
import MonkeyLanguage.Proofs.Reading.Places
import MonkeyLanguage.Proofs.Scanning.Joining

/-!
# Programs behind each other

A semicolon ends a statement wherever it stands, and more of them do no harm. So programs that can
be read by themselves can be read with semicolons between them, and the statements are those of all
of them, in order. Nothing of a program is taken for a part of the one before, as it may be where
there is no semicolon.
-/

namespace MonkeyLanguage

namespace Parser

variable {limit : Numeral.DigitLimit} {ts : List Token}

/-- However many semicolons come behind a statement, it is read as the same one. -/
theorem exists_statement_of_derives {node : Node}
    (h : Derives (reads limit) ts (.statement node)) :
    ∃ other, ∀ semicolons : List Token, (∀ token ∈ semicolons, token.kind = .semicolon) →
      ReadsStatement limit semicolons ts other := by
  cases h with
  | letStatement hword hname hsign hvalue =>
      obtain ⟨_, _, hchain⟩ := readable_of_derives hvalue
      obtain ⟨value, hread⟩ := hchain.exists_node
      exact ⟨_, fun semicolons hall => hread.letStatement hall hword hname hsign⟩
  | returnStatement hword hvalue =>
      obtain ⟨_, _, hchain⟩ := readable_of_derives hvalue
      obtain ⟨value, hread⟩ := hchain.exists_node
      exact ⟨_, fun semicolons hall => hread.returnStatement hall hword⟩
  | @expressionStatement first ts _ hvalue =>
      obtain ⟨_, _, hchain⟩ := readable_of_derives hvalue
      obtain ⟨value, hread⟩ := hchain.exists_node
      refine ⟨.expressionStatement first value, fun semicolons hall => ?_⟩
      obtain ⟨_, _, hcons, hstatement⟩ := hread.expressionStatement hall
      obtain ⟨rfl, rfl⟩ := List.cons.inj hcons
      exact hstatement

/-- The tokens are read as the statements, and so they are with a semicolon and other statements
behind them. -/
def Resumes (limit : Numeral.DigitLimit) (ts : List Token) (nodes : List Node) : Prop :=
  Sequence limit ts nodes ∧ ∀ (semicolon : Token) (us : List Token) (more : List Node),
    semicolon.kind = .semicolon → Sequence limit us more →
      Sequence limit (ts ++ semicolon :: us) (nodes ++ more)

theorem exists_resumes_of_derives {nodes : List Node}
    (h : Derives (reads limit) ts (.statements nodes)) (hne : ts ≠ []) :
    ∃ others, Resumes limit ts others := by
  generalize hphrase : Phrase.statements nodes = phrase at h
  induction h generalizing nodes with
  | noStatements => exact absurd rfl hne
  | @moreStatements ts semicolons rest _ _ hstatement hall hrest hnone _ ih =>
      obtain ⟨other, hother⟩ := exists_statement_of_derives hstatement
      by_cases hlast : rest = []
      · subst hlast
        refine ⟨[other], .more (hother _ hall) .none (by simp), ?_⟩
        intro semicolon us more hsemicolon hmore
        have hlonger : ∀ token ∈ semicolons ++ [semicolon], token.kind = .semicolon := by
          simpa [or_imp, forall_and] using ⟨hall, hsemicolon⟩
        simpa using Sequence.more (hother _ hlonger) hmore (by simp)
      · obtain ⟨others, hothers, hresumes⟩ := ih hlast rfl
        refine ⟨other :: others, .more (hother _ hall) hothers hnone, ?_⟩
        intro semicolon us more hsemicolon hmore
        have hstarts : semicolons = [] →
            ∀ next ∈ (rest ++ semicolon :: us).head?, next.kind ∉ Kind.ambiguous := by
          intro hnil next hnext
          obtain ⟨first, tail, rfl⟩ := List.exists_cons_of_ne_nil hlast
          exact hnone hnil next hnext
        simpa using Sequence.more (hother _ hall) (hresumes semicolon us more hsemicolon hmore)
          hstarts
  | _ => cases hphrase

end Parser

/-! ## Programs in a row -/

namespace Parse

variable {limit : Numeral.DigitLimit}

/-- What is read from tokens of some shapes. -/
def ofShapes (shapes : List Shape) (limit : Numeral.DigitLimit) : Parse :=
  ofFeed (Feed.ofShapes shapes) limit

theorem ofShapes_of_sequence {shapes : List Shape} {nodes : List Node}
    (h : Parser.Sequence limit (shapes.map Token.ofShape) nodes) :
    ofShapes shapes limit = ⟨.program (Feed.ofShapes shapes).current nodes, []⟩ :=
  ofFeed_of_sequence h rfl

/-- The shapes are those of a program that is read without errors. -/
structure Accepted (limit : Numeral.DigitLimit) (shapes : List Shape) : Prop where
  ne_nil : shapes ≠ []
  no_end : ∀ shape ∈ shapes, shape.1 ≠ .endOfInput
  errors : (ofShapes shapes limit).errors = []

theorem Accepted.resumes {shapes : List Shape} (h : Accepted limit shapes) :
    Parser.Resumes limit (shapes.map Token.ofShape) (ofShapes shapes limit).program.statements := by
  obtain ⟨nodes, rest, hyields⟩ := Parse.errors_eq_nil_iff.1 h.errors
  have hderives : Derives (Parser.reads limit) (shapes.map Token.ofShape) (.statements nodes) :=
    Parser.derives_of_yields hyields rfl (List.forall_mem_map.2 h.no_end)
  obtain ⟨others, hothers⟩ := Parser.exists_resumes_of_derives hderives (by simpa using h.ne_nil)
  rwa [ofShapes_of_sequence hothers.1]

/-- Programs with semicolons between them are read as the statements of all of them. -/
theorem sequence_joined {programs : List (List Shape)}
    (h : ∀ program ∈ programs, Accepted limit program) :
    Parser.Sequence limit
      ((List.intercalate [Kind.semicolon.symbol] programs).map Token.ofShape)
      (programs.flatMap fun program => (ofShapes program limit).program.statements) := by
  induction programs with
  | nil => exact .none
  | cons program rest ih =>
      obtain ⟨hprogram, hrest⟩ := List.forall_mem_cons.1 h
      obtain ⟨hsequence, hmore⟩ := hprogram.resumes
      cases rest with
      | nil => simpa [List.intercalate] using hsequence
      | cons next rest =>
          have hjoined := hmore (Token.ofShape Kind.semicolon.symbol) _ _ rfl (ih hrest)
          rw [List.intercalate_cons_cons, List.flatMap_cons]
          simpa using hjoined

end Parse

/-! ## Source texts in a row -/

theorem Node.statements_unplaced (node : Node) :
    node.unplaced.statements = node.statements.map Node.unplaced := by
  cases node <;> simp [Node.unplaced, Node.statements]

theorem shapes_eq_nil_iff {text : List Char} : shapes text = [] ↔ text.all Text.isBlank := by
  induction text with
  | nil => simp [shapes_nil]
  | cons c text ih =>
      cases hblank : Text.isBlank c with
      | true => rw [shapes_blank hblank, ih, List.all_cons, hblank, Bool.true_and]
      | false => simp [shapes_first hblank, hblank]

theorem shapes_joined {sources : List String} (h : ∀ source ∈ sources, Closed source.toList) :
    shapes (";".intercalate sources).toList =
      List.intercalate [Kind.semicolon.symbol]
        (sources.map fun source => shapes source.toList) := by
  induction sources with
  | nil => rfl
  | cons source rest ih =>
      obtain ⟨hsource, hrest⟩ := List.forall_mem_cons.1 h
      cases rest with
      | nil => simp [List.intercalate]
      | cons next rest =>
          have halone : StandsAlone (';' :: (";".intercalate (next :: rest)).toList) := by
            simp [StandsAlone, isWordPart]
          have hsemicolon : shapes (';' :: (";".intercalate (next :: rest)).toList) =
              Kind.semicolon.symbol :: shapes (";".intercalate (next :: rest)).toList :=
            shapes_delimiter (by decide) (by decide) _
          have hcons : (";".intercalate (source :: next :: rest)).toList =
              source.toList ++ ';' :: (";".intercalate (next :: rest)).toList := by
            simp only [String.intercalate_cons_cons, String.toList_append, List.append_assoc]
            rfl
          rw [hcons, shapes_append hsource halone, hsemicolon, ih hrest]
          simp only [List.map_cons, List.intercalate_cons_cons, List.append_assoc,
            List.singleton_append]

/-- The text is that of a program that is read without errors, and its strings are closed. -/
structure Sentence (limit : Numeral.DigitLimit) (source : String) : Prop where
  closed : Closed source.toList
  not_blank : ¬ Text.allBlank source
  errors : (Parse.ofSource source limit).errors = []

theorem Sentence.accepted {limit : Numeral.DigitLimit} {source : String}
    (h : Sentence limit source) : Parse.Accepted limit (shapes source.toList) where
  ne_nil hnil := h.not_blank (shapes_eq_nil_iff.1 hnil)
  no_end shape hshape := (admits_of_mem_shapesFrom hshape).2
  errors := by rw [Parse.ofShapes, ← (Parse.unplaced_ofSource source limit).1, h.errors]

/-- Texts of programs with semicolons between them are read as the statements of all of them. -/
theorem Parse.ofSource_joined {limit : Numeral.DigitLimit} {sources : List String}
    (h : ∀ source ∈ sources, Sentence limit source) :
    (Parse.ofSource (";".intercalate sources) limit).errors = [] ∧
      (Parse.ofSource (";".intercalate sources) limit).program.statements.map Node.unplaced =
        sources.flatMap fun source =>
          (Parse.ofSource source limit).program.statements.map Node.unplaced := by
  have hread (source : String) :
      (Parse.ofSource source limit).program.statements.map Node.unplaced =
        (Parse.ofShapes (shapes source.toList) limit).program.statements := by
    rw [← Node.statements_unplaced, (Parse.unplaced_ofSource source limit).2, Parse.ofShapes]
  have hjoined := Parse.ofShapes_of_sequence
    (Parse.sequence_joined (List.forall_mem_map.2 fun source hmem => (h source hmem).accepted))
  rw [← shapes_joined fun source hmem => (h source hmem).closed] at hjoined
  refine ⟨?_, ?_⟩
  · rw [(Parse.unplaced_ofSource _ limit).1, ← Parse.ofShapes, hjoined]
  · simp only [hread, hjoined, List.flatMap_map]
    rfl

end MonkeyLanguage
