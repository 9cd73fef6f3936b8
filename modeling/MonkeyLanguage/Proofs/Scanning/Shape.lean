-- SUMMARY: Which texts the tokens of each kind have, and scanning without places.
import Mathlib.Data.List.TakeWhile
import Mathlib.Tactic.Common
import MonkeyLanguage.Token.Scan

/-!
# Shapes of tokens

The shape of a token is its kind and its text. Where the token stands matters to diagnostics
only, so what is said about reading is said of shapes. `shapes` scans a text into shapes, and
each of them is of a kind that admits its text.
-/

namespace MonkeyLanguage

/-- The kind and the text of a token. -/
abbrev Shape : Type := Kind × String

def Token.shape (token : Token) : Shape := (token.kind, token.literal)

def Lexeme.shape (lexeme : Lexeme) : Shape := (lexeme.kind, String.ofList lexeme.literal)

/-! ## Classes of characters -/

theorem isDigit_iff {c : Char} : c.isDigit ↔ 48 ≤ c.toNat ∧ c.toNat ≤ 57 := by
  simp only [Char.isDigit, Bool.and_eq_true, decide_eq_true_eq, ge_iff_le, UInt32.le_iff_toNat_le]
  exact Iff.rfl

theorem isUpper_iff {c : Char} : c.isUpper ↔ 65 ≤ c.toNat ∧ c.toNat ≤ 90 := by
  have hrange : c.isUpper = decide (65 ≤ c.val ∧ c.val ≤ 90) := rfl
  rw [hrange, decide_eq_true_eq]
  exact Iff.rfl

theorem isLower_iff {c : Char} : c.isLower ↔ 97 ≤ c.toNat ∧ c.toNat ≤ 122 := by
  have hrange : c.isLower = (decide (97 ≤ c.val) && decide (c.val ≤ 122)) := rfl
  rw [hrange, Bool.and_eq_true, decide_eq_true_eq, decide_eq_true_eq]
  exact Iff.rfl

theorem isAlpha_iff {c : Char} :
    c.isAlpha ↔ (65 ≤ c.toNat ∧ c.toNat ≤ 90) ∨ (97 ≤ c.toNat ∧ c.toNat ≤ 122) := by
  have hcases : c.isAlpha = (c.isUpper || c.isLower) := rfl
  rw [hcases, Bool.or_eq_true, isUpper_iff, isLower_iff]

theorem isWordPart_of_isDigit {c : Char} (h : c.isDigit) : isWordPart c := by
  simp [isWordPart, Char.isAlphanum, h]

theorem not_isWordStart_of_isDigit {c : Char} (h : c.isDigit) : isWordStart c = false := by
  have hcode := isDigit_iff.1 h
  have halpha : c.isAlpha = false := by
    rw [← Bool.not_eq_true, isAlpha_iff]
    omega
  have hunderscore : c ≠ '_' := by
    rintro rfl
    simp at h
  simp [isWordStart, halpha, hunderscore]

/-! ## Texts of tokens -/

/-- A text that is scanned as one word. -/
def IsWord (text : List Char) : Prop :=
  ∃ c rest, text = c :: rest ∧ isWordStart c ∧ ∀ d ∈ rest, isWordPart d

/-- A non-empty run of ASCII digits. -/
def IsDigits (text : List Char) : Prop :=
  text ≠ [] ∧ ∀ c ∈ text, c.isDigit

/-- The scanner makes tokens of this kind from such texts only. -/
def Kind.Admits (kind : Kind) (text : String) : Prop :=
  match kind with
  | .identifier | .functionWord | .letWord | .trueWord | .falseWord | .ifWord | .elseWord
  | .returnWord => IsWord text.toList ∧ Kind.ofWord text = kind
  | .integer => IsDigits text.toList
  | .string => '"' ∉ text.toList
  | .illegal => True
  | .endOfInput => text = ""
  | .other _ => False
  | symbol => text = symbol.name

/-- The token is one that the scanner can make. -/
def Token.Lexical (token : Token) : Prop := token.kind.Admits token.literal

theorem Kind.admits_ofWord {word : String} (h : IsWord word.toList) :
    (Kind.ofWord word).Admits word := by
  generalize hkind : Kind.ofWord word = kind
  unfold Kind.ofWord at hkind
  split at hkind <;> subst hkind <;> exact ⟨h, by simp_all [Kind.ofWord]⟩

/-- A keyword is told by its kind. -/
theorem Kind.ofWord_inj {word other : String} (h : Kind.ofWord word = Kind.ofWord other)
    (hkeyword : Kind.ofWord other ≠ .identifier) : word = other := by
  unfold Kind.ofWord at h hkeyword
  split at h <;> split at h <;> simp_all

theorem Kind.admits_ofSymbol {c : Char} {kind : Kind} (h : Kind.ofSymbol? c = some kind) :
    kind.Admits (String.ofList [c]) ∧ kind ≠ .endOfInput := by
  unfold Kind.ofSymbol? at h
  split at h <;> simp_all <;> subst h <;> exact ⟨rfl, by decide⟩

/-- What is scanned at the start of a text is of a kind that admits it. -/
theorem Lexeme.admits_first (c : Char) (rest : List Char) :
    (Lexeme.first c rest).kind.Admits (String.ofList (Lexeme.first c rest).literal) ∧
      (Lexeme.first c rest).kind ≠ .endOfInput := by
  unfold Lexeme.first
  split
  case isTrue hstart =>
    have hword : IsWord (c :: rest.takeWhile isWordPart) :=
      ⟨c, _, rfl, hstart, fun _ hmem => List.mem_takeWhile_imp hmem⟩
    refine ⟨Kind.admits_ofWord (by simpa using hword), ?_⟩
    simp only [plain, Kind.ofWord]
    split <;> decide
  split
  case isTrue hdigit =>
    refine ⟨⟨by simp [plain], fun d hmem => ?_⟩, by simp [plain]⟩
    obtain rfl | hmem := List.mem_cons.1 (by simpa [plain] using hmem)
    · exact hdigit
    · exact List.mem_takeWhile_imp hmem
  split
  case isTrue =>
    refine ⟨?_, by simp [string]⟩
    simp only [string, Kind.Admits, String.toList_ofList]
    intro hmem
    simpa using List.mem_takeWhile_imp hmem
  split
  case isTrue => exact ⟨rfl, by decide⟩
  split
  case isTrue => exact ⟨rfl, by decide⟩
  cases hsymbol : Kind.ofSymbol? c with
  | none => exact ⟨trivial, by simp [plain]⟩
  | some kind => exact Kind.admits_ofSymbol hsymbol

/-! ## Scanning -/

/-- The shapes of the tokens of a text, after the first `skip` characters. -/
def shapesFrom (skip : Nat) : List Char → List Shape
  | [] => []
  | c :: rest =>
    match skip with
    | skip + 1 => shapesFrom skip rest
    | 0 =>
      if Text.isBlank c then shapesFrom 0 rest
      else (Lexeme.first c rest).shape ::
        shapesFrom ((Lexeme.first c rest).spelling.length - 1) rest

/-- The shapes of the tokens of a text. -/
def shapes (text : List Char) : List Shape := shapesFrom 0 text

theorem shapesFrom_eq_shapes (skip : Nat) (text : List Char) :
    shapesFrom skip text = shapes (text.drop skip) := by
  induction text generalizing skip with
  | nil => simp [shapesFrom, shapes]
  | cons c rest ih =>
      cases skip with
      | zero => rfl
      | succ skip => exact ih skip

theorem admits_of_mem_shapesFrom {skip : Nat} {text : List Char} {shape : Shape}
    (h : shape ∈ shapesFrom skip text) : shape.1.Admits shape.2 ∧ shape.1 ≠ .endOfInput := by
  induction text generalizing skip with
  | nil => simp [shapesFrom] at h
  | cons c rest ih =>
      cases skip with
      | succ skip => exact ih h
      | zero =>
          simp only [shapesFrom] at h
          split at h
          case isTrue => exact ih h
          case isFalse =>
            obtain rfl | h := List.mem_cons.1 h
            · exact Lexeme.admits_first c rest
            · exact ih h

/-- Scanning makes tokens of these shapes, and one more for the end. -/
theorem Token.scanFrom_eq (skip : Nat) (here finish : Position) (text : List Char) :
    ∃ ts last, Token.scanFrom skip here finish text = ts ++ [Token.endAt last] ∧
      ts.map Token.shape = shapesFrom skip text := by
  induction text generalizing skip here finish with
  | nil => exact ⟨[], finish, rfl, rfl⟩
  | cons c rest ih =>
      cases skip with
      | succ skip => exact ih skip _ _
      | zero =>
          simp only [Token.scanFrom, shapesFrom]
          split
          case isTrue => exact ih 0 _ _
          case isFalse =>
            obtain ⟨ts, last, hscan, hshapes⟩ :=
              ih ((Lexeme.first c rest).spelling.length - 1) (here.advance c) (here.advance c)
            exact ⟨(Lexeme.first c rest).toToken here :: ts, last, by simp [hscan],
              by simpa [Token.shape, Lexeme.toToken, Lexeme.shape] using hshapes⟩

/-- A text is scanned into tokens that the scanner can make, with the only end token behind them. -/
theorem Token.scan_eq (source : String) :
    ∃ ts last, Token.scan source = ts ++ [Token.endAt last] ∧
      ts.map Token.shape = shapes source.toList ∧
      ∀ token ∈ ts, token.Lexical ∧ token.kind ≠ .endOfInput := by
  obtain ⟨ts, last, hscan, hshapes⟩ := Token.scanFrom_eq 0 .start .start source.toList
  refine ⟨ts, last, hscan, hshapes, fun token hmem => ?_⟩
  have hshape : token.shape ∈ ts.map Token.shape := List.mem_map_of_mem hmem
  rw [hshapes] at hshape
  exact admits_of_mem_shapesFrom hshape

end MonkeyLanguage
