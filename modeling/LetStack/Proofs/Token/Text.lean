import LetStack.Token.Scanner

/-!
How the texts of literal tokens are written (`LiteralText`): numbers in digits with a base, a fraction or an exponent,
and other literals between quotes. `prefixedLength`, `fractionLength` and `exponentLength` measure such texts.
-/

namespace LetStack.Token

/-! ## Texts -/

/-- Digits of a class, one at least. -/
structure Digits (isDigit : UInt8 → Bool) (x : Bytes) : Prop where
  nonempty : x ≠ []
  all : ∀ b ∈ x, isDigit b = true

/-- An integer in writing, with its base and its digits. -/
inductive IntegerText : Bytes → Nat → Bytes → Prop
  | decimal {ds : Bytes} : Digits isDecimalDigit ds → IntegerText ds 10 ds
  | binary {ds : Bytes} : Digits isBinaryDigit ds → IntegerText (0x30 :: 0x62 :: ds) 2 ds
  | octal {ds : Bytes} : Digits isOctalDigit ds → IntegerText (0x30 :: 0x6F :: ds) 8 ds
  | hexadecimal {ds : Bytes} : Digits isHexDigit ds → IntegerText (0x30 :: 0x78 :: ds) 16 ds

/-- A point with digits behind it, or nothing. -/
inductive FractionText : Bytes → Prop
  | none : FractionText []
  | point {ds : Bytes} : Digits isDecimalDigit ds → FractionText (0x2E :: ds)

/-- `e` or `E` with a sign and digits behind it, or nothing. -/
inductive ExponentText : Bytes → Prop
  | none : ExponentText []
  | power {mark sign : UInt8} {ds : Bytes} : mark = 0x65 ∨ mark = 0x45 → sign = 0x2B ∨ sign = 0x2D →
      Digits isDecimalDigit ds → ExponentText (mark :: sign :: ds)

/-- A number in writing. -/
inductive NumberText : Bytes → Prop
  | parts {whole fraction exponent : Bytes} : Digits isDecimalDigit whole → FractionText fraction →
      ExponentText exponent → NumberText (whole ++ (fraction ++ exponent))

/-- How the text of a token is written, if the token is a literal other than a truth value. -/
def LiteralText : Kind → Bytes → Prop
  | .intLit, x => ∃ base ds, IntegerText x base ds
  | .decimalLit, x | .exponentLit, x => NumberText x
  | .charLit, x | .stringLit, x => 2 ≤ x.length
  | _, _ => True

/-! ## Numbers -/

theorem take_countWhile (p : UInt8 → Bool) (x : Bytes) : x.take (countWhile p x) = x.takeWhile p := by
  induction x with
  | nil => rfl
  | cons b x ih =>
    unfold countWhile at ih ⊢
    cases h : p b <;> simp [h, ih]

variable {x : Bytes}

theorem digits_take_countWhile {p : UInt8 → Bool} (h : countWhile p x ≠ 0) : Digits p (x.take (countWhile p x)) := by
  rw [take_countWhile]
  refine ⟨fun empty => h ?_, fun b hb => ?_⟩
  · rw [countWhile, empty]
    rfl
  · exact List.all_eq_true.1 List.all_takeWhile b hb

theorem integerText_of_prefixed (h : 0 < prefixedLength x) :
    ∃ base ds, IntegerText (x.take (prefixedLength x)) base ds := by
  unfold prefixedLength at h ⊢
  split at h
  · next mark digits =>
    -- the class of digits that the mark asks for decides; without a digit of it there is no number
    have counted {p : UInt8 → Bool} {n : Nat} (hn : n = countWhile p digits)
        (h : 0 < if n = 0 then 0 else n + 2) :
        (if n = 0 then 0 else n + 2) = countWhile p digits + 2 ∧
          Digits p (digits.take (countWhile p digits)) := by
      split at h
      · cases h
      · next some =>
        rw [hn] at some
        exact ⟨by rw [if_neg (hn ▸ some), hn], digits_take_countWhile some⟩
    by_cases two : mark = 0x62
    · subst two
      obtain ⟨length, ds⟩ := counted (if_pos rfl) h
      exact ⟨2, _, by rw [length]; exact .binary ds⟩
    by_cases eight : mark = 0x6F
    · subst eight
      obtain ⟨length, ds⟩ := counted ((if_neg two).trans (if_pos rfl)) h
      exact ⟨8, _, by rw [length]; exact .octal ds⟩
    by_cases sixteen : mark = 0x78
    · subst sixteen
      obtain ⟨length, ds⟩ := counted ((if_neg two).trans ((if_neg eight).trans (if_pos rfl))) h
      exact ⟨16, _, by rw [length]; exact .hexadecimal ds⟩
    · simp [two, eight, sixteen] at h
  · cases h

theorem fractionText_take (x : Bytes) : FractionText (x.take (fractionLength x)) := by
  unfold fractionLength
  split
  · next digits =>
    by_cases none : countWhile isDecimalDigit digits = 0
    · simp only [if_pos none]
      exact .none
    · simp only [if_neg none]
      exact .point (digits_take_countWhile none)
  · exact .none

theorem exponentText_take (x : Bytes) : ExponentText (x.take (exponentLength x)) := by
  unfold exponentLength
  split
  · next mark sign digits =>
    split
    · next marked =>
      by_cases none : countWhile isDecimalDigit digits = 0
      · simp only [if_pos none]
        exact .none
      · simp only [if_neg none]
        exact .power marked.1 marked.2 (digits_take_countWhile none)
    · exact .none
  · exact .none

theorem literalText_of_fixed {k : Kind} (h : k.isLiteral = false ∨ k = .boolLit) (x : Bytes) :
    LiteralText k x := by
  cases k <;> simp [Kind.isLiteral] at h <;> trivial

end LetStack.Token
