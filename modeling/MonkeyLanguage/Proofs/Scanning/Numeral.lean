-- SUMMARY: The numbers that runs of digits stand for.
import Mathlib.Data.Nat.Digits.Defs
import Mathlib.Tactic.Ring
import MonkeyLanguage.Numeral
import MonkeyLanguage.Parser.Rules
import MonkeyLanguage.Proofs.Scanning.Shape

/-!
# Runs of digits

The integer tokens of a source text are runs of ASCII digits, which are read as decimal
numbers. Blanks, signs and underscores come from outside only.
-/

namespace MonkeyLanguage.Numeral

/-- The decimal value of a run of ASCII digits. -/
def decimal (digits : List Char) : Nat :=
  Nat.ofDigits 10 (digits.reverse.map fun c => c.toNat - '0'.toNat)

/-- The text is a run of digits, no more of them than may be read, and the value is the number
it stands for, which is small enough to be written. -/
structure Written (limit : DigitLimit) (text : String) (value : Int) : Prop where
  digits : IsDigits text.toList
  fits : ∀ most ∈ limit, text.length ≤ most
  value_eq : value = decimal text.toList
  value_le : value ≤ Parser.largestInteger

theorem decimal_cons (c : Char) (digits : List Char) :
    decimal (c :: digits) = (c.toNat - 48) * 10 ^ digits.length + decimal digits := by
  have hzero : '0'.toNat = 48 := rfl
  simp [decimal, Nat.ofDigits_append, hzero, Nat.mul_comm, Nat.add_comm]

theorem readDigits_eq {digits : List Char} (h : ∀ c ∈ digits, c.isDigit) (value : Nat) :
    readDigits value digits = some (value * 10 ^ digits.length + decimal digits) := by
  induction digits generalizing value with
  | nil => simp [readDigits, decimal]
  | cons c digits ih =>
      have hc := h c List.mem_cons_self
      have hne : c ≠ '_' := by
        rintro rfl
        exact absurd hc (by decide)
      rw [readDigits.eq_3 _ _ _ (by simp [hne]), Text.digitValue?_of_isDigit hc, Option.bind_some,
        ih (fun d hd => h d (List.mem_cons_of_mem _ hd)), decimal_cons, List.length_cons, Nat.pow_succ]
      congr 1
      ring

theorem ne_of_isDigit {c d : Char} (h : c.isDigit) (hd : d.isDigit = false) : c ≠ d := by
  rintro rfl
  simp [h] at hd

theorem isPadding_of_isDigit {c : Char} (h : c.isDigit) : isPadding c = false := by
  have hcode := isDigit_iff.1 h
  simp only [isPadding, Text.isBlank]
  simp
  omega

theorem trim_digits {digits : List Char} (h : ∀ c ∈ digits, c.isDigit) :
    Text.trim isPadding digits = digits := by
  have hdrop : ∀ text : List Char, (∀ c ∈ text, c.isDigit) → text.dropWhile isPadding = text := by
    intro text htext
    cases text with
    | nil => rfl
    | cons c rest => simp [isPadding_of_isDigit (htext c List.mem_cons_self)]
  rw [Text.trim, hdrop _ h, hdrop _ (by simpa using h), List.reverse_reverse]

theorem fits_digits {limit : DigitLimit} {digits : List Char} (h : ∀ c ∈ digits, c.isDigit) :
    fits limit digits ↔ ∀ most ∈ limit, digits.length ≤ most := by
  have hall : digits.filter (· != '_') = digits :=
    List.filter_eq_self.2 fun c hmem => by simpa using ne_of_isDigit (h c hmem) (by decide)
  simp [fits, hall, Option.all_eq_true]

theorem read?_digits {limit : DigitLimit} {text : String} (h : IsDigits text.toList) :
    read? text limit = if fits limit text.toList then some (decimal text.toList : Int) else none := by
  obtain ⟨hne, hall⟩ := h
  rw [read?, trim_digits hall]
  generalize text.toList = digits at hne hall
  obtain ⟨c, rest, rfl⟩ := List.exists_cons_of_ne_nil hne
  have hc := hall c List.mem_cons_self
  have hminus : c ≠ '-' := ne_of_isDigit hc (by decide)
  have hplus : c ≠ '+' := ne_of_isDigit hc (by decide)
  rw [readSigned.eq_3 _ _ (by simp [hminus]) (by simp [hplus]), readMagnitude]
  split
  case isTrue =>
    rw [Text.digitValue?_of_isDigit hc, Option.bind_some,
      readDigits_eq fun d hd => hall d (List.mem_cons_of_mem _ hd), decimal_cons]
    rfl
  case isFalse => rfl

/-- On runs of digits, the numbers that the parser reads are the decimal values. -/
theorem reads_iff_written {limit : DigitLimit} {text : String} {value : Int}
    (h : IsDigits text.toList) :
    read? text limit = some value ∧ value ≤ Parser.largestInteger ↔ Written limit text value := by
  rw [read?_digits h]
  constructor
  · rintro ⟨hread, hle⟩
    split at hread
    case isTrue hfits =>
      have hlength := (fits_digits h.2).1 hfits
      rw [String.length_toList] at hlength
      exact ⟨h, hlength, (Option.some.inj hread).symm, hle⟩
    case isFalse => cases hread
  · rintro ⟨-, hfits, rfl, hle⟩
    rw [if_pos ((fits_digits h.2).2 (by simpa [String.length_toList] using hfits))]
    exact ⟨rfl, hle⟩

/-! ## Numbers that are written in digits -/

theorem ofDigitChars_eq (digits : List Char) (value : Nat) :
    Nat.ofDigitChars 10 digits value = value * 10 ^ digits.length + decimal digits := by
  induction digits generalizing value with
  | nil => simp [decimal]
  | cons c digits ih =>
      rw [Nat.ofDigitChars_cons, ih, decimal_cons, List.length_cons, Nat.pow_succ]
      change (10 * value + (c.toNat - 48)) * 10 ^ digits.length + decimal digits = _
      ring

theorem decimal_toDigits (n : Nat) : decimal (Nat.toDigits 10 n) = n := by
  have hvalue := ofDigitChars_eq (Nat.toDigits 10 n) 0
  rw [Nat.ofDigitChars_ten_toDigits, Nat.zero_mul, Nat.zero_add] at hvalue
  exact hvalue.symm

theorem isDigits_repr (n : Nat) : IsDigits n.repr.toList := by
  rw [Nat.toList_repr]
  exact ⟨Nat.toDigits_ne_nil, fun _ => Nat.isDigit_of_mem_toDigits (by decide) (by decide)⟩

/-- A number that is not too large is written in at most 19 digits. -/
theorem written_repr {limit : DigitLimit} (hlimit : ∀ most ∈ limit, 19 ≤ most) {n : Nat}
    (hn : n < 0x8000000000000000) : Written limit n.repr n := by
  have hlength : n.repr.length ≤ 19 := by
    rw [← String.length_toList, Nat.toList_repr]
    exact (Nat.length_toDigits_le_iff (by decide) (by decide)).2 (by omega)
  refine ⟨isDigits_repr n, fun most hmost => hlength.trans (hlimit most hmost), ?_, ?_⟩
  · rw [Nat.toList_repr, decimal_toDigits]
  · rw [Parser.largestInteger]
    omega

end MonkeyLanguage.Numeral
