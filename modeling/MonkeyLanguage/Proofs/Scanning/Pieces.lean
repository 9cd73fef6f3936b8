-- SUMMARY: Scanning a text piece by piece.
import MonkeyLanguage.Proofs.Scanning.Stretches

/-!
# Pieces of text

Each lemma scans one lexeme at the start of a text. A word or a run of digits must not be
followed by a character that would make it longer, and two of the operators must not be
followed by an equals sign.
-/

namespace MonkeyLanguage

/-- The shape of an operator or delimiter. -/
def Kind.symbol (kind : Kind) : Shape := (kind, kind.name)

theorem shapes_nil : shapes [] = [] := rfl

theorem shapes_blank {c : Char} (h : Text.isBlank c) (rest : List Char) :
    shapes (c :: rest) = shapes rest := by
  simp [shapes, shapesFrom, h]

theorem shapes_space (rest : List Char) : shapes (' ' :: rest) = shapes rest :=
  shapes_blank (by decide) rest

/-- A lexeme at the start of a text is scanned, and scanning goes on behind it. -/
theorem shapes_first {c : Char} (h : Text.isBlank c = false) (rest : List Char) :
    shapes (c :: rest) = (Lexeme.first c rest).shape ::
      shapes (rest.drop ((Lexeme.first c rest).spelling.length - 1)) := by
  rw [shapes, shapesFrom]
  simp [h, shapesFrom_eq_shapes]

/-- Scanning goes on behind a lexeme that is split off a text. -/
theorem shapes_split {c : Char} (hblank : Text.isBlank c = false) {text others : List Char}
    (h : (Lexeme.first c text).spelling ++ others = c :: text) :
    shapes (c :: text) = (Lexeme.first c text).shape :: shapes others := by
  obtain ⟨d, spelling, hspelling⟩ := List.exists_cons_of_ne_nil (Lexeme.spelling_ne_nil c text)
  rw [hspelling, List.cons_append] at h
  obtain ⟨rfl, htext⟩ := List.cons.inj h
  have hdrop : text.drop spelling.length = others := by rw [← htext, List.drop_left]
  rw [shapes_first hblank, hspelling, List.length_cons, Nat.add_sub_cancel, hdrop]

/-- A lexeme that is complete is scanned, and scanning goes on behind it. -/
theorem shapes_fits {lexeme : Lexeme} {following : List Char} (h : lexeme.Fits following) :
    shapes (lexeme.spelling ++ following) = lexeme.shape :: shapes following := by
  obtain ⟨c, rest, htext, hblank, rfl⟩ := h.first_eq
  rw [htext, shapes_split hblank htext]

theorem shapes_word {word rest : List Char} (h : IsWord word) (hrest : Apart rest) :
    shapes (word ++ rest) = (Kind.ofWord (String.ofList word), String.ofList word) :: shapes rest :=
  shapes_fits (.word h hrest)

/-- The words that are no names. -/
def keywords : List String := ["fn", "let", "true", "false", "if", "else", "return"]

theorem isWord_of_keyword {word : String} (h : word ∈ keywords) : IsWord word.toList := by
  simp only [keywords, List.mem_cons, List.not_mem_nil, or_false] at h
  rcases h with rfl | rfl | rfl | rfl | rfl | rfl | rfl <;>
    exact ⟨_, _, rfl, rfl, List.all_eq_true.1 rfl⟩

theorem shapes_keyword {word : String} (h : word ∈ keywords) {rest : List Char}
    (hrest : Apart rest) :
    shapes (word.toList ++ rest) = (Kind.ofWord word, word) :: shapes rest := by
  rw [shapes_word (isWord_of_keyword h) hrest, String.ofList_toList]

theorem shapes_ifWord {rest : List Char} (hrest : Apart rest) :
    shapes ('i' :: 'f' :: rest) = (.ifWord, "if") :: shapes rest :=
  have hmem : "if" ∈ keywords := by simp [keywords]
  shapes_keyword hmem hrest

theorem shapes_elseWord {rest : List Char} (hrest : Apart rest) :
    shapes ('e' :: 'l' :: 's' :: 'e' :: rest) = (.elseWord, "else") :: shapes rest :=
  have hmem : "else" ∈ keywords := by simp [keywords]
  shapes_keyword hmem hrest

theorem shapes_digits {digits rest : List Char} (h : IsDigits digits) (hrest : Apart rest) :
    shapes (digits ++ rest) = (.integer, String.ofList digits) :: shapes rest :=
  shapes_fits (.digits h fun c hc => isDigit_of_not_isWordPart (hrest c hc))

theorem shapes_string {text : List Char} (h : '"' ∉ text) (rest : List Char) :
    shapes ('"' :: (text ++ '"' :: rest)) = (.string, String.ofList text) :: shapes rest := by
  simpa [Lexeme.shape] using shapes_fits (.closed h)

/-- A single character is an operator or delimiter, unless it is the start of a longer one. -/
theorem shapes_symbol {c : Char} {kind : Kind} (h : Kind.ofSymbol? c = some kind)
    {rest : List Char} (hrest : c = '=' ∨ c = '!' → rest.head? ≠ some '=') :
    shapes (c :: rest) = kind.symbol :: shapes rest := by
  have hname : kind.name = String.ofList [c] := by
    unfold Kind.ofSymbol? at h
    split at h <;> cases h <;> rfl
  rw [Kind.symbol, hname]
  exact shapes_fits (.symbol h hrest)

/-- A single character that starts nothing longer. -/
theorem shapes_delimiter {c : Char} (h : (Kind.ofSymbol? c).isSome) (hc : c ≠ '=' ∧ c ≠ '!')
    (rest : List Char) :
    shapes (c :: rest) = ((Kind.ofSymbol? c).getD .illegal).symbol :: shapes rest := by
  obtain ⟨kind, hkind⟩ := Option.isSome_iff_exists.1 h
  rw [hkind]
  exact shapes_symbol hkind (by simp [hc])

theorem shapes_equal (rest : List Char) :
    shapes ('=' :: '=' :: rest) = Kind.equal.symbol :: shapes rest :=
  shapes_fits .equal

theorem shapes_notEqual (rest : List Char) :
    shapes ('!' :: '=' :: rest) = Kind.notEqual.symbol :: shapes rest :=
  shapes_fits .notEqual

end MonkeyLanguage
