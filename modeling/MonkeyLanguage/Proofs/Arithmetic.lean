-- SUMMARY: Integer arithmetic is that of 64-bit words in two's complement.
import MonkeyLanguage.Proofs.Run.Arrival

/-!
# Arithmetic of words

The numbers of a run are those of signed 64-bit words, and operators between them compute what the
operations on words do. Dividing drops the fraction, and there is one quotient that is too large for
a word. Words add, subtract and multiply as numbers do modulo `2 ^ 64`, so it makes no difference
whether a sum of many terms is brought back into the range at each step or at the end.
-/

namespace MonkeyLanguage

/-! ## Words -/

namespace Integer

/-- The word of 64 bits that stands for a number, and for all that differ from it by a multiple
of `2 ^ 64`. -/
def word (n : Int) : BitVec 64 := BitVec.ofInt 64 n

variable {a b : Int}

theorem toInt_word (n : Int) : (word n).toInt = wrap n :=
  BitVec.toInt_ofInt n

theorem toInt_word_of_inRange (h : InRange a) : (word a).toInt = a := by
  rw [toInt_word, wrap_of_inRange h]

section

variable (ha : InRange a) (hb : InRange b)

include ha hb

theorem wrap_add_eq_word : wrap (a + b) = (word a + word b).toInt := by
  rw [BitVec.toInt_add, toInt_word_of_inRange ha, toInt_word_of_inRange hb]
  rfl

theorem wrap_sub_eq_word : wrap (a - b) = (word a - word b).toInt := by
  rw [BitVec.toInt_sub, toInt_word_of_inRange ha, toInt_word_of_inRange hb]
  rfl

theorem wrap_mul_eq_word : wrap (a * b) = (word a * word b).toInt := by
  rw [BitVec.toInt_mul, toInt_word_of_inRange ha, toInt_word_of_inRange hb]
  rfl

theorem wrap_quotient_eq_word : wrap (quotient a b) = ((word a).sdiv (word b)).toInt := by
  rw [BitVec.toInt_sdiv, toInt_word_of_inRange ha, toInt_word_of_inRange hb, quotient_eq_tdiv]
  rfl

theorem slt_word_iff : (word a).slt (word b) = true ↔ a < b := by
  rw [BitVec.slt_iff_toInt_lt, toInt_word_of_inRange ha, toInt_word_of_inRange hb]

theorem word_eq_iff : word a = word b ↔ a = b := by
  rw [← BitVec.toInt_inj, toInt_word_of_inRange ha, toInt_word_of_inRange hb]

end

theorem wrap_neg_eq_word (ha : InRange a) : wrap (-a) = (-word a).toInt := by
  rw [BitVec.toInt_neg, toInt_word_of_inRange ha]
  rfl

/-! ## Division -/

/-- The quotient of two numbers in range is in range, with one exception. -/
theorem inRange_quotient (ha : InRange a) (hb : b ≠ 0)
    (hlargest : ¬ (a = -0x8000000000000000 ∧ b = -1)) : InRange (quotient a b) := by
  obtain ⟨hlow, hhigh⟩ := ha
  rw [quotient_eq_tdiv]
  have hle : (a.tdiv b).natAbs ≤ a.natAbs := Int.natAbs_tdiv_le_natAbs a b
  suffices hne : a.tdiv b ≠ 0x8000000000000000 from ⟨by omega, by omega⟩
  intro heq
  -- Only the lowest number is that large, and only if the divisor leaves it as large as it is.
  have hlowest : a = -0x8000000000000000 := by omega
  have hsplit : a.tdiv b * b + a.tmod b = a := Int.tdiv_mul_add_tmod a b
  have hrest : (a.tmod b).natAbs < b.natAbs := by
    rw [Int.natAbs_tmod]
    exact Nat.mod_lt _ (Int.natAbs_pos.2 hb)
  rw [heq] at hsplit
  exact hlargest ⟨hlowest, by omega⟩

/-- What is left over by a division is smaller than the divisor, and it has the sign of the number
that was divided unless it is zero. -/
theorem quotient_spec (a : Int) (hb : b ≠ 0) :
    ∃ rest, a = quotient a b * b + rest ∧ rest.natAbs < b.natAbs ∧
      (rest = 0 ∨ rest.sign = a.sign) := by
  rw [quotient_eq_tdiv]
  refine ⟨a.tmod b, (Int.tdiv_mul_add_tmod a b).symm, ?_, ?_⟩
  · rw [Int.natAbs_tmod]
    exact Nat.mod_lt _ (Int.natAbs_pos.2 hb)
  · rw [Int.sign_tmod]
    split
    · next hdvd => exact .inl (Int.tmod_eq_zero_of_dvd hdvd)
    · exact .inr rfl

/-! ## Sums of many terms -/

theorem wrap_add_wrap (a b : Int) : wrap (wrap a + wrap b) = wrap (a + b) := by
  rw [wrap, wrap, wrap, Int.bmod_add_bmod, Int.add_bmod_bmod, wrap]

theorem wrap_sub_wrap (a b : Int) : wrap (wrap a - wrap b) = wrap (a - b) := by
  rw [wrap, wrap, wrap, Int.bmod_sub_bmod, Int.sub_bmod_bmod, wrap]

theorem wrap_mul_wrap (a b : Int) : wrap (wrap a * wrap b) = wrap (a * b) := by
  rw [wrap, wrap, wrap, Int.bmod_mul_bmod, Int.mul_bmod_bmod, wrap]

theorem wrap_neg_wrap (a : Int) : wrap (-wrap a) = wrap (-a) := by
  rw [wrap, wrap, Int.bmod_neg_bmod, wrap]

end Integer

/-- The node is made of numerals in range, by addition, subtraction, multiplication and minus signs,
and if numbers had no limits its value would be this one. -/
inductive Node.Calculates : Node → Int → Prop where
  | integer {token : Token} {n : Int} : Integer.InRange n → Calculates (.integer token n) n
  | negative {token : Token} {right : Node} {n : Int} :
      Calculates right n → Calculates (.prefixed token "-" right) (-n)
  | sum {token : Token} {left right : Node} {a b : Int} :
      Calculates left a → Calculates right b → Calculates (.binary token "+" left right) (a + b)
  | difference {token : Token} {left right : Node} {a b : Int} :
      Calculates left a → Calculates right b → Calculates (.binary token "-" left right) (a - b)
  | product {token : Token} {left right : Node} {a b : Int} :
      Calculates left a → Calculates right b → Calculates (.binary token "*" left right) (a * b)

section

variable {host : Host} {call : Call} {scope : ScopeId} {machine : Machine} {left right : Node}

theorem evaluate_prefixed_integer {n : Int}
    (h : evaluate host call scope right machine = .ok (.integer n) machine) (token : Token)
    (operator : String) :
    evaluate host call scope (.prefixed token operator right) machine =
      .ok (Value.prefixed operator (.integer n)) machine := by
  rw [evaluate, Eval.withValue, Eval.ok_bind h]
  rfl

theorem evaluate_binary_integers {a b : Int}
    (h : evaluate host call scope left machine = .ok (.integer a) machine)
    (hright : evaluate host call scope right machine = .ok (.integer b) machine) (token : Token)
    (operator : String) :
    evaluate host call scope (.binary token operator left right) machine =
      .ok (Value.binary operator (.integer a) (.integer b) host.repetitionLimit) machine := by
  rw [evaluate, Eval.withValue, Eval.ok_bind h]
  change Eval.withValue (evaluate host call scope right)
    (fun right => pure (Value.binary operator (.integer a) right host.repetitionLimit)) machine = _
  rw [Eval.withValue, Eval.ok_bind hright]
  rfl

/-- To wrap at each step is to wrap once at the end. -/
theorem Node.Calculates.evaluate {node : Node} {exact : Int} (h : node.Calculates exact)
    (host : Host) (call : Call) (scope : ScopeId) (machine : Machine) :
    MonkeyLanguage.evaluate host call scope node machine =
      .ok (.integer (Integer.wrap exact)) machine := by
  induction h with
  | integer hn =>
      rw [Integer.wrap_of_inRange hn]
      rfl
  | negative _ ih =>
      rw [evaluate_prefixed_integer ih, ← Integer.wrap_neg_wrap]
      rfl
  | sum _ _ ihLeft ihRight =>
      rw [evaluate_binary_integers ihLeft ihRight, ← Integer.wrap_add_wrap]
      rfl
  | difference _ _ ihLeft ihRight =>
      rw [evaluate_binary_integers ihLeft ihRight, ← Integer.wrap_sub_wrap]
      rfl
  | product _ _ ihLeft ihRight =>
      rw [evaluate_binary_integers ihLeft ihRight, ← Integer.wrap_mul_wrap]
      rfl

end

/-! ## Operators between numbers -/

namespace Integer

/-- What the operators make of two numbers, however long strings may be: what the operations on
their words do, and for division and the comparisons also what that means for the numbers
themselves. -/
structure WordArithmetic (limit : Nat) (a b : Int) : Prop where
  sum : Value.binary "+" (.integer a) (.integer b) limit = .integer (word a + word b).toInt
  difference : Value.binary "-" (.integer a) (.integer b) limit = .integer (word a - word b).toInt
  product : Value.binary "*" (.integer a) (.integer b) limit = .integer (word a * word b).toInt
  opposite : Value.prefixed "-" (.integer a) = .integer (-word a).toInt
  ratio : b ≠ 0 →
    Value.binary "/" (.integer a) (.integer b) limit = .integer ((word a).sdiv (word b)).toInt
  truncated : b ≠ 0 → ¬ (a = -0x8000000000000000 ∧ b = -1) →
    ∃ whole rest, Value.binary "/" (.integer a) (.integer b) limit = .integer whole ∧
      a = whole * b + rest ∧ rest.natAbs < b.natAbs ∧ (rest = 0 ∨ rest.sign = a.sign)
  largest : a = -0x8000000000000000 → b = -1 →
    Value.binary "/" (.integer a) (.integer b) limit = .integer (-0x8000000000000000)
  byZero : b = 0 → ∃ cause, Value.binary "/" (.integer a) (.integer b) limit = .error cause ∧
    cause.message = "division by zero"
  less : Value.binary "<" (.integer a) (.integer b) limit = .boolean (decide (a < b)) ∧
    decide (a < b) = (word a).slt (word b)
  greater : Value.binary ">" (.integer a) (.integer b) limit = .boolean (decide (b < a)) ∧
    decide (b < a) = (word b).slt (word a)
  equal : Value.binary "==" (.integer a) (.integer b) limit = .boolean (decide (a = b)) ∧
    decide (a = b) = decide (word a = word b)
  notEqual : Value.binary "!=" (.integer a) (.integer b) limit = .boolean (decide (a ≠ b)) ∧
    decide (a ≠ b) = decide (word a ≠ word b)

variable {a b : Int}

theorem binary_quotient (limit : Nat) (a : Int) (hb : b ≠ 0) :
    Value.binary "/" (.integer a) (.integer b) limit = .integer (wrap (quotient a b)) :=
  if_neg hb

theorem wordArithmetic (limit : Nat) (ha : InRange a) (hb : InRange b) :
    WordArithmetic limit a b where
  sum := congrArg Value.integer (wrap_add_eq_word ha hb)
  difference := congrArg Value.integer (wrap_sub_eq_word ha hb)
  product := congrArg Value.integer (wrap_mul_eq_word ha hb)
  opposite := congrArg Value.integer (wrap_neg_eq_word ha)
  ratio hne := by rw [binary_quotient limit a hne, wrap_quotient_eq_word ha hb]
  truncated hne hlargest := by
    obtain ⟨rest, hsplit, hsmall, hsign⟩ := quotient_spec a hne
    refine ⟨quotient a b, rest, ?_, hsplit, hsmall, hsign⟩
    rw [binary_quotient limit a hne, wrap_of_inRange (inRange_quotient ha hne hlargest)]
  largest hlow hneg := by
    subst hlow hneg
    rfl
  byZero hzero := ⟨.divisionByZero, if_pos hzero, rfl⟩
  less := ⟨rfl, by rw [Bool.eq_iff_iff, slt_word_iff ha hb, decide_eq_true_iff]⟩
  greater := ⟨rfl, by rw [Bool.eq_iff_iff, slt_word_iff hb ha, decide_eq_true_iff]⟩
  equal := ⟨rfl, decide_eq_decide.2 (word_eq_iff ha hb).symm⟩
  notEqual := ⟨congrArg Value.boolean decide_not.symm,
    decide_eq_decide.2 (not_congr (word_eq_iff ha hb).symm)⟩

/-- Numbers of the language are words of 64 bits in two's complement. Its operators do with two
numbers what the operations on words do. And what an expression made of numerals, sums,
differences, products and minus signs evaluates to, in any scope and on any machine, is the number
that it would have been without limits, brought back into the range once. -/
theorem words_compute :
    (∀ (limit : Nat) (a b : Int), InRange a → InRange b → WordArithmetic limit a b) ∧
      ∀ (node : Node) (exact : Int), node.Calculates exact →
        ∀ (host : Host) (call : Call) (scope : ScopeId) (machine : Machine),
          evaluate host call scope node machine = .ok (.integer (wrap exact)) machine :=
  ⟨fun limit _ _ => wordArithmetic limit, fun _ _ h => h.evaluate⟩

/-- The lowest number has itself as its quotient by minus one, and twice the largest number is
minus two. -/
theorem words_compute_bounds :
    Value.binary "/" (.integer (-0x8000000000000000)) (.integer (-1)) =
        .integer (-0x8000000000000000) ∧
      evaluate {} (fun _ _ => pure .null) 0
          (.binary default "*" (.integer default 2) (.integer default 0x7fffffffffffffff))
          Machine.initial = .ok (.integer (-2)) Machine.initial :=
  ⟨(words_compute.1 _ _ _ (by decide) (by decide)).largest rfl rfl,
    words_compute.2 _ _ (.product (.integer (by decide)) (.integer (by decide))) _ _ _ _⟩

end Integer

end MonkeyLanguage
