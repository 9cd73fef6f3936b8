-- SUMMARY: Integers of 64 bits in two's complement.

/-!
# 64-bit integers

A number of the language is an `Int`. Arithmetic brings its result back into the
range of signed 64-bit words, by dropping the bits above.
-/

namespace MonkeyLanguage.Integer

/-- The number in the range of signed 64-bit words that differs from `n` by a multiple
of `2 ^ 64`. -/
def wrap (n : Int) : Int :=
  n.bmod 0x10000000000000000

/-- The numbers that a signed 64-bit word can hold: from `-2 ^ 63` to `2 ^ 63 - 1`. -/
def InRange (n : Int) : Prop :=
  -0x8000000000000000 ≤ n ∧ n < 0x8000000000000000

instance (n : Int) : Decidable (InRange n) :=
  inferInstanceAs (Decidable (_ ∧ _))

/-- Division that drops the fraction: the quotient of the magnitudes, below zero if just one of
the operands is. -/
def quotient (a b : Int) : Int :=
  let magnitude : Int := a.natAbs / b.natAbs
  if (a < 0) ≠ (b < 0) then -magnitude else magnitude

theorem inRange_wrap (n : Int) : InRange (wrap n) := by
  have below := Int.le_bmod (x := n) (m := 0x10000000000000000) (by decide)
  have above := Int.bmod_lt (x := n) (m := 0x10000000000000000) (by decide)
  unfold InRange wrap
  omega

theorem wrap_of_inRange {n : Int} (h : InRange n) : wrap n = n := by
  obtain ⟨below, above⟩ := h
  exact Int.bmod_eq_of_le (by omega) (by omega)

theorem quotient_eq_tdiv (a b : Int) : quotient a b = a.tdiv b := by
  have hnatural (n : Nat) : ¬ (n : Int) < 0 := Int.not_lt_of_ge (Int.natCast_nonneg n)
  have hnegative (n : Nat) : Int.negSucc n < 0 := Int.negSucc_lt_zero n
  cases a with
  | ofNat m =>
      cases b with
      | ofNat n => simp [quotient, hnatural, Int.tdiv]
      | negSucc n => simp [quotient, hnatural, hnegative, Int.tdiv]
  | negSucc m =>
      cases b with
      | ofNat n => simp [quotient, hnatural, hnegative, Int.tdiv]
      | negSucc n => simp [quotient, hnegative, Int.tdiv]

end MonkeyLanguage.Integer
