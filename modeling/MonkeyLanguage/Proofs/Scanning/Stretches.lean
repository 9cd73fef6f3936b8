-- SUMMARY: Which stretches of a text make a token, said without scanning.
import MonkeyLanguage.Proofs.Scanning.Shape

/-!
# Stretches

What a lexeme is can be told from its own text and from the character behind it: a word or a
number does not go on there, and an operator does not become a longer one. The lexemes that fit
this description are those that the scanner finds.
-/

namespace MonkeyLanguage

/-- The text does not go on with a word or number before it. -/
def Apart (text : List Char) : Prop := ∀ c ∈ text.head?, isWordPart c = false

@[simp] theorem apart_nil : Apart [] := by simp [Apart]

@[simp] theorem apart_cons {c : Char} {rest : List Char} :
    Apart (c :: rest) ↔ isWordPart c = false := by
  simp [Apart]

/-- A character that is neither blank nor able to start a word, number, string, operator or
delimiter. -/
structure IsIllegal (c : Char) : Prop where
  blank : Text.isBlank c = false
  word : isWordStart c = false
  digit : c.isDigit = false
  quote : c ≠ '"'
  symbol : Kind.ofSymbol? c = none

/-- The lexeme is complete if this is what follows it in the text. -/
inductive Lexeme.Fits : Lexeme → List Char → Prop where
  | word {word following : List Char} :
      IsWord word → Apart following →
      Fits (.plain (.ofWord (String.ofList word)) word) following
  | digits {digits following : List Char} :
      IsDigits digits → (∀ c ∈ following.head?, c.isDigit = false) →
      Fits (.plain .integer digits) following
  | closed {text following : List Char} :
      '"' ∉ text → Fits ⟨.string, text, '"' :: text ++ ['"']⟩ following
  /-- A string that the text ends in. -/
  | unclosed {text : List Char} : '"' ∉ text → Fits ⟨.string, text, '"' :: text⟩ []
  | symbol {c : Char} {kind : Kind} {following : List Char} :
      Kind.ofSymbol? c = some kind → (c = '=' ∨ c = '!' → following.head? ≠ some '=') →
      Fits (.plain kind [c]) following
  | equal {following : List Char} : Fits (.plain .equal ['=', '=']) following
  | notEqual {following : List Char} : Fits (.plain .notEqual ['!', '=']) following
  | illegal {c : Char} {following : List Char} :
      IsIllegal c → Fits (.plain .illegal [c]) following

/-! ## Characters that start a lexeme -/

theorem isBlank_of_isWordStart {c : Char} (h : isWordStart c) : Text.isBlank c = false := by
  have hcode : 65 ≤ c.toNat ∧ c.toNat ≤ 122 := by
    rw [isWordStart, Bool.or_eq_true, isAlpha_iff, beq_iff_eq] at h
    rcases h with h | rfl
    · omega
    · decide
  simp only [Text.isBlank]
  simp
  omega

theorem isBlank_of_isDigit {c : Char} (h : c.isDigit) : Text.isBlank c = false := by
  have hcode := isDigit_iff.1 h
  simp only [Text.isBlank]
  simp
  omega

theorem not_isWordPart_of_isBlank {c : Char} (h : Text.isBlank c) : isWordPart c = false := by
  have hstart : isWordStart c = false := by
    rw [← Bool.not_eq_true]
    intro hstart
    rw [isBlank_of_isWordStart hstart] at h
    cases h
  have hdigit : c.isDigit = false := by
    rw [← Bool.not_eq_true]
    intro hdigit
    rw [isBlank_of_isDigit hdigit] at h
    cases h
  rw [isWordStart, Bool.or_eq_false_iff] at hstart
  rw [isWordPart, Char.isAlphanum, hstart.1, hdigit, hstart.2]
  rfl

theorem isDigit_of_not_isWordPart {c : Char} (h : isWordPart c = false) : c.isDigit = false := by
  rw [← Bool.not_eq_true]
  intro hdigit
  simp [isWordPart_of_isDigit hdigit] at h

theorem takeWhile_append_of_apart {p : Char → Bool} {text rest : List Char}
    (h : ∀ c ∈ text, p c) (hrest : ∀ c ∈ rest.head?, p c = false) :
    (text ++ rest).takeWhile p = text := by
  rw [List.takeWhile_append_of_pos h]
  cases rest with
  | nil => simp
  | cons c rest => simp [hrest c rfl]

namespace Lexeme

theorem spelling_ne_nil (c : Char) (text : List Char) : (first c text).spelling ≠ [] := by
  unfold first
  repeat' split
  all_goals simp [plain, string]

theorem first_illegal {c : Char} (h : IsIllegal c) (rest : List Char) :
    first c rest = .plain .illegal [c] := by
  have hsymbol := h.symbol
  have hequal : c ≠ '=' := by
    rintro rfl
    cases hsymbol
  have hnot : c ≠ '!' := by
    rintro rfl
    cases hsymbol
  simp [first, h.word, h.digit, h.quote, hequal, hnot, hsymbol]

/-- An operator or delimiter of one character is found where no longer one starts. -/
theorem first_symbol {c : Char} {kind : Kind} (h : Kind.ofSymbol? c = some kind)
    {rest : List Char} (hrest : c = '=' ∨ c = '!' → rest.head? ≠ some '=') :
    Text.isBlank c = false ∧ first c rest = .plain kind [c] := by
  unfold Kind.ofSymbol? at h
  split at h <;> cases h
  all_goals
    refine ⟨by decide, ?_⟩
    simp_all [first, isWordStart, Kind.ofSymbol?]

/-- A string ends at the first quote behind the one that opens it. -/
theorem string_closed {text : List Char} (h : '"' ∉ text) (following : List Char) :
    string (text ++ '"' :: following) = ⟨.string, text, '"' :: text ++ ['"']⟩ := by
  have hbody : (text ++ '"' :: following).takeWhile (· != '"') = text :=
    takeWhile_append_of_apart (by simpa using fun c hc => ne_of_mem_of_not_mem hc h) (by simp)
  simp [string, hbody]

/-- A string without such a quote takes the rest of the text. -/
theorem string_unclosed {text : List Char} (h : '"' ∉ text) :
    string text = ⟨.string, text, '"' :: text⟩ := by
  have hbody : text.takeWhile (· != '"') = text :=
    List.takeWhile_eq_self_iff.2 (by simpa using fun c hc => ne_of_mem_of_not_mem hc h)
  simp [string, hbody]

/-- A lexeme that fits what follows it is what the scanner finds there. -/
theorem Fits.first_eq {lexeme : Lexeme} {following : List Char} (h : lexeme.Fits following) :
    ∃ c rest, lexeme.spelling ++ following = c :: rest ∧ Text.isBlank c = false ∧
      first c rest = lexeme := by
  cases h with
  | word hword hfollowing =>
      obtain ⟨c, others, rfl, hstart, hothers⟩ := hword
      refine ⟨c, others ++ following, rfl, isBlank_of_isWordStart hstart, ?_⟩
      rw [first, if_pos hstart, takeWhile_append_of_apart hothers hfollowing]
  | digits hdigits hfollowing =>
      obtain ⟨hne, hall⟩ := hdigits
      obtain ⟨c, others, rfl⟩ := List.exists_cons_of_ne_nil hne
      obtain ⟨hdigit, hothers⟩ := List.forall_mem_cons.1 hall
      refine ⟨c, others ++ following, rfl, isBlank_of_isDigit hdigit, ?_⟩
      rw [first, if_neg (by simp [not_isWordStart_of_isDigit hdigit]), if_pos hdigit,
        takeWhile_append_of_apart hothers hfollowing]
  | @closed text _ htext =>
      refine ⟨'"', text ++ '"' :: following, by simp, by decide, ?_⟩
      rw [← string_closed htext following]
      rfl
  | @unclosed text htext =>
      refine ⟨'"', text, by simp, by decide, ?_⟩
      rw [← string_unclosed htext]
      rfl
  | symbol hsymbol hfollowing =>
      obtain ⟨hblank, hfirst⟩ := first_symbol hsymbol hfollowing
      exact ⟨_, following, rfl, hblank, hfirst⟩
  | equal => exact ⟨'=', '=' :: following, rfl, by decide, rfl⟩
  | notEqual => exact ⟨'!', '=' :: following, rfl, by decide, rfl⟩
  | illegal hillegal => exact ⟨_, following, rfl, hillegal.blank, first_illegal hillegal following⟩

theorem fits_string (rest : List Char) :
    ∃ following, (string rest).spelling ++ following = '"' :: rest ∧
      (string rest).Fits following := by
  by_cases hquote : '"' ∈ rest
  · obtain ⟨body, others, rfl, hbody⟩ := List.eq_append_cons_of_mem hquote
    rw [string_closed hbody]
    exact ⟨others, by simp, .closed hbody⟩
  · rw [string_unclosed hquote]
    exact ⟨[], by simp, .unclosed hquote⟩

theorem head?_dropWhile {p : Char → Bool} {text : List Char} :
    ∀ c ∈ (text.dropWhile p).head?, p c = false := by
  intro c hc
  have hhead := List.head?_dropWhile_not p text
  rw [hc] at hhead
  exact hhead

/-- What the scanner finds is complete, and it is where the text starts. -/
theorem fits_first {c : Char} (hblank : Text.isBlank c = false) (rest : List Char) :
    ∃ following, (first c rest).spelling ++ following = c :: rest ∧
      (first c rest).Fits following := by
  unfold first
  split
  case isTrue hstart =>
    refine ⟨rest.dropWhile isWordPart, by simp [plain], .word ?_ head?_dropWhile⟩
    exact ⟨c, _, rfl, hstart, fun _ hmem => List.mem_takeWhile_imp hmem⟩
  case isFalse hstart =>
  split
  case isTrue hdigit =>
    refine ⟨rest.dropWhile Char.isDigit, by simp [plain], .digits ⟨by simp, ?_⟩ head?_dropWhile⟩
    exact List.forall_mem_cons.2 ⟨hdigit, fun _ hmem => List.mem_takeWhile_imp hmem⟩
  case isFalse hdigit =>
  split
  case isTrue hquote => exact hquote ▸ fits_string rest
  case isFalse hquote =>
  split
  case isTrue hequal =>
    obtain ⟨others, rfl⟩ := List.head?_eq_some_iff.1 hequal.2
    exact ⟨others, by simp [plain, hequal.1], .equal⟩
  case isFalse hequal =>
  split
  case isTrue hnot =>
    obtain ⟨others, rfl⟩ := List.head?_eq_some_iff.1 hnot.2
    exact ⟨others, by simp [plain, hnot.1], .notEqual⟩
  case isFalse hnot =>
  refine ⟨rest, rfl, ?_⟩
  cases hsymbol : Kind.ofSymbol? c with
  | some kind =>
      refine .symbol hsymbol fun hc hhead => ?_
      rcases hc with rfl | rfl
      · exact hequal ⟨rfl, hhead⟩
      · exact hnot ⟨rfl, hhead⟩
  | none =>
      rw [Bool.not_eq_true] at hstart hdigit
      exact .illegal ⟨hblank, hstart, hdigit, hquote, hsymbol⟩

/-! ## What the spelling determines -/

/-- A lexeme that is complete before some text is also complete at the end of a text. -/
theorem Fits.atEnd {lexeme : Lexeme} {following : List Char} (h : lexeme.Fits following) :
    lexeme.Fits [] := by
  cases h with
  | word hword => exact .word hword apart_nil
  | digits hdigits => exact .digits hdigits (by simp)
  | closed htext => exact .closed htext
  | unclosed htext => exact .unclosed htext
  | symbol hsymbol => exact .symbol hsymbol (by simp)
  | equal => exact .equal
  | notEqual => exact .notEqual
  | illegal hillegal => exact .illegal hillegal

/-- The kind and the literal of a lexeme are determined by its spelling. -/
theorem Fits.eq_of_spelling {lexeme other : Lexeme} {following elsewhere : List Char}
    (h : lexeme.Fits following) (hother : other.Fits elsewhere)
    (hspelling : lexeme.spelling = other.spelling) : lexeme = other := by
  obtain ⟨c, rest, htext, -, hfirst⟩ := h.atEnd.first_eq
  obtain ⟨d, more, hsame, -, hagain⟩ := hother.atEnd.first_eq
  rw [hspelling, hsame] at htext
  cases htext
  exact hfirst.symm.trans hagain

/-- Only illegal lexemes start with an illegal character. -/
theorem Fits.kind_of_illegal {lexeme : Lexeme} {following : List Char} (h : lexeme.Fits following)
    {c : Char} (hc : IsIllegal c) (hhead : lexeme.spelling.head? = some c) :
    lexeme.kind = .illegal := by
  obtain ⟨d, rest, htext, -, hfirst⟩ := h.first_eq
  obtain ⟨more, hspelling⟩ := List.head?_eq_some_iff.1 hhead
  rw [hspelling, List.cons_append] at htext
  cases htext
  rw [← hfirst, first_illegal hc]
  rfl

theorem Fits.kind_ne_endOfInput {lexeme : Lexeme} {following : List Char}
    (h : lexeme.Fits following) : lexeme.kind ≠ .endOfInput := by
  obtain ⟨c, rest, -, -, rfl⟩ := h.first_eq
  exact (admits_first c rest).2

/-- An illegal lexeme is a single illegal character. -/
theorem Fits.of_illegal {lexeme : Lexeme} {following : List Char} (h : lexeme.Fits following)
    (hkind : lexeme.kind = .illegal) : ∃ c, lexeme = .plain .illegal [c] ∧ IsIllegal c := by
  cases h with
  | @illegal c _ hc => exact ⟨c, rfl, hc⟩
  | word =>
      simp only [plain, Kind.ofWord] at hkind
      split at hkind <;> cases hkind
  | symbol hsymbol =>
      cases hkind
      unfold Kind.ofSymbol? at hsymbol
      split at hsymbol <;> cases hsymbol
  | _ => cases hkind

end Lexeme

end MonkeyLanguage
