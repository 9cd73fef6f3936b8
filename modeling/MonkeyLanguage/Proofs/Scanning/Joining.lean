-- SUMMARY: Scanning one text behind another.
import Mathlib.Algebra.Group.Nat.Even
import Mathlib.Data.List.Basic
import MonkeyLanguage.Proofs.Scanning.Pieces

/-!
# Texts behind each other

If all strings of a text are closed, then its tokens do not depend on what comes behind it, unless
that goes on with its last token. The strings are closed if the number of quotes is even.
-/

namespace MonkeyLanguage

/-- The number of quotes in the text is even, so each string in it is closed. -/
def Closed (text : List Char) : Prop := Even (text.count '"')

instance (text : List Char) : Decidable (Closed text) :=
  inferInstanceAs (Decidable (Even _))

/-- The text goes on with no token before it: with no word or number, and with no operator. -/
def StandsAlone (text : List Char) : Prop :=
  ∀ c ∈ text.head?, isWordPart c = false ∧ c ≠ '='

theorem StandsAlone.apart {text : List Char} (h : StandsAlone text) : Apart text :=
  fun c hc => (h c hc).1

/-- A stretch of characters of one class is as long as before with something behind it that does
not belong to the class. -/
theorem takeWhile_append_of_head {p : Char → Bool} (text : List Char) {rest : List Char}
    (hrest : ∀ c ∈ rest.head?, p c = false) :
    (text ++ rest).takeWhile p = text.takeWhile p := by
  induction text with
  | nil =>
      cases rest with
      | nil => rfl
      | cons c rest => simp [hrest c rfl]
  | cons c text ih =>
      rw [List.cons_append, List.takeWhile_cons, List.takeWhile_cons, ih]

/-- A string that is closed ends at the first quote behind the one that opens it. -/
theorem exists_closing {text : List Char} (h : Closed ('"' :: text)) :
    ∃ body others, text = body ++ '"' :: others ∧ '"' ∉ body ∧ Closed others := by
  have hmem : '"' ∈ text := by
    rw [← List.count_pos_iff]
    rw [Closed, List.count_cons_self, Nat.even_add_one] at h
    exact Nat.pos_of_ne_zero fun hzero => h (hzero ▸ Even.zero)
  obtain ⟨body, others, rfl, hbody⟩ := List.eq_append_cons_of_mem hmem
  refine ⟨body, others, rfl, hbody, ?_⟩
  rw [Closed, List.count_cons_self, List.count_append, List.count_eq_zero_of_not_mem hbody,
    List.count_cons_self, Nat.zero_add, Nat.even_add_one, Nat.even_add_one, not_not] at h
  exact h

namespace Lexeme

/-- A closed string is the same whatever comes behind the text. -/
theorem string_append {text : List Char} (h : Closed ('"' :: text)) (rest : List Char) :
    string (text ++ rest) = string text ∧
      ∃ others, (string text).spelling ++ others = '"' :: text ∧ Closed others := by
  obtain ⟨body, others, rfl, hbody, hothers⟩ := exists_closing h
  have htake (more : List Char) : (body ++ '"' :: more).takeWhile (· != '"') = body :=
    takeWhile_append_of_apart (by simpa using fun c hc => ne_of_mem_of_not_mem hc hbody) (by simp)
  refine ⟨?_, others, ?_, hothers⟩
  · simp [string, htake]
  · simp [string, htake]

/-- The text behind characters that are no quotes is closed if the whole text is. -/
theorem closed_of_append (front : List Char) {others : List Char} (h : Closed (front ++ others))
    (hfront : '"' ∉ front) : Closed others := by
  rwa [Closed, List.count_append, List.count_eq_zero_of_not_mem hfront, Nat.zero_add] at h

/-- The lexeme at the start of a closed text is the same with something behind the text that stands
alone, and the text behind the lexeme is closed again. -/
theorem first_append {c : Char} {text rest : List Char} (h : Closed (c :: text))
    (hrest : StandsAlone rest) :
    first c (text ++ rest) = first c text ∧
      ∃ others, (first c text).spelling ++ others = c :: text ∧ Closed others := by
  have hword := takeWhile_append_of_head text hrest.apart
  have hdigits := takeWhile_append_of_head text fun d hd =>
    isDigit_of_not_isWordPart (hrest.apart d hd)
  have hhead : (text ++ rest).head? = some '=' ↔ text.head? = some '=' := by
    cases text with
    | nil => simpa using fun hequal => (hrest _ hequal).2 rfl
    | cons d text => rfl
  have hclass {p : Char → Bool} (hc : c ≠ '"') (hquote : p '"' = false) :
      ∃ others, (c :: text.takeWhile p) ++ others = c :: text ∧ Closed others := by
    have hsplit : (c :: text.takeWhile p) ++ text.dropWhile p = c :: text := by simp
    refine ⟨_, hsplit, closed_of_append _ (hsplit ▸ h) ?_⟩
    simp only [List.mem_cons, not_or]
    refine ⟨hc.symm, fun hmem => ?_⟩
    simpa [hquote] using List.mem_takeWhile_imp hmem
  by_cases hquote : c = '"'
  · subst hquote
    exact string_append h rest
  have hone : ∃ others, [c] ++ others = c :: text ∧ Closed others :=
    ⟨text, rfl, closed_of_append [c] h (by simpa using Ne.symm hquote)⟩
  have htwo (hequal : text.head? = some '=') :
      ∃ others, [c, '='] ++ others = c :: text ∧ Closed others := by
    obtain ⟨others, rfl⟩ := List.head?_eq_some_iff.1 hequal
    exact ⟨others, rfl, closed_of_append [c, '='] h (by simpa using Ne.symm hquote)⟩
  simp only [first, hword, hdigits, hhead, hquote, if_false, true_and]
  split
  case isTrue hstart => exact hclass hquote (by decide)
  split
  case isTrue hdigit => exact hclass hquote (by decide)
  split
  case isTrue hequal => exact hequal.1 ▸ htwo hequal.2
  split
  case isTrue hnot => exact hnot.1 ▸ htwo hnot.2
  case isFalse => exact hone

end Lexeme

/-- Scanning goes on behind a closed text as if there were nothing before. -/
theorem shapes_append {text rest : List Char} (h : Closed text) (hrest : StandsAlone rest) :
    shapes (text ++ rest) = shapes text ++ shapes rest := by
  induction hlength : text.length using Nat.strongRecOn generalizing text with
  | _ length ih =>
      cases text with
      | nil => rfl
      | cons c text =>
          by_cases hblank : Text.isBlank c
          · have hclosed : Closed text := Lexeme.closed_of_append [c] h (by
              simp only [List.mem_singleton]
              rintro rfl
              cases hblank)
            rw [List.cons_append, shapes_blank hblank, shapes_blank hblank]
            exact ih text.length (by simp [← hlength]) hclosed rfl
          · rw [Bool.not_eq_true] at hblank
            obtain ⟨hfirst, others, hsplit, hothers⟩ := Lexeme.first_append h hrest
            have hlonger : (Lexeme.first c (text ++ rest)).spelling ++ (others ++ rest) =
                c :: (text ++ rest) := by
              rw [hfirst, ← List.append_assoc, hsplit, List.cons_append]
            have hless : others.length < length := by
              have hpos := List.length_pos_of_ne_nil (Lexeme.spelling_ne_nil c text)
              have hsum := congrArg List.length hsplit
              rw [List.length_append] at hsum
              omega
            rw [List.cons_append, shapes_split hblank hlonger, hfirst, shapes_split hblank hsplit,
              ih others.length hless hothers rfl, List.cons_append]

end MonkeyLanguage
