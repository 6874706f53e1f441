import LetStack.Proofs.Lower.Slices
import LetStack.Proofs.Grammar.Derivation
import LetStack.Proofs.Token.Scanned

/-!
The faults of literals that the scanner admits: numbers that are too great, unknown escapes, and character literals
that do not hold one character (`literalInstr_fault`).
-/

namespace LetStack

open Token

/-! ## Digits -/

variable {b : UInt8} {x ds : Bytes}

theorem digitValue?_of_decimal (h : isDecimalDigit b = true) :
    digitValue? b = some (b.toNat - 0x30) ∧ 0x30 ≤ b.toNat ∧ b.toNat ≤ 0x39 := by
  refine ⟨by rw [digitValue?, if_pos h], ?_⟩
  simpa [isDecimalDigit, UInt8.le_iff_toNat_le] using h

theorem lowerByte_of_decimal (h : isDecimalDigit b = true) : Bytes.lowerByte b = b := by
  obtain ⟨_, least, greatest⟩ := digitValue?_of_decimal h
  rw [Bytes.lowerByte, if_neg]
  simp only [UInt8.le_iff_toNat_le, UInt8.reduceToNat]
  omega

/-- A byte that is a digit of a base. -/
def IsDigitOf (base : Nat) (b : UInt8) : Prop := ∃ d < base, digitValue? b = some d

theorem isDigitOf_of_decimal (h : isDecimalDigit b = true) : IsDigitOf 10 b := by
  obtain ⟨value, _, _⟩ := digitValue?_of_decimal h
  exact ⟨_, by omega, value⟩

theorem isDigitOf_of_binary (h : isBinaryDigit b = true) : IsDigitOf 2 b := by
  have : b = 0x30 ∨ b = 0x31 := by simpa [isBinaryDigit] using h
  rcases this with rfl | rfl
  · exact ⟨0, by decide, rfl⟩
  · exact ⟨1, by decide, rfl⟩

theorem isDigitOf_of_octal (h : isOctalDigit b = true) : IsDigitOf 8 b := by
  have range : 0x30 ≤ b.toNat ∧ b.toNat ≤ 0x37 := by
    simpa [isOctalDigit, UInt8.le_iff_toNat_le] using h
  have decimal : isDecimalDigit b = true := by
    simp [isDecimalDigit, UInt8.le_iff_toNat_le]
    omega
  exact ⟨_, by omega, (digitValue?_of_decimal decimal).1⟩

theorem isDigitOf_of_hexadecimal (h : isHexDigit b = true) : IsDigitOf 16 b := by
  by_cases decimal : isDecimalDigit b = true
  · obtain ⟨value, _, _⟩ := digitValue?_of_decimal decimal
    exact ⟨_, by omega, value⟩
  · simp [isHexDigit, decimal, UInt8.le_iff_toNat_le] at h
    by_cases small : 0x61 ≤ b.toNat
    · refine ⟨b.toNat - 0x57, by omega, ?_⟩
      rw [digitValue?, if_neg decimal, if_pos]
      simp only [UInt8.le_iff_toNat_le, UInt8.reduceToNat]
      omega
    · refine ⟨b.toNat - 0x37, by omega, ?_⟩
      rw [digitValue?, if_neg decimal, if_neg, if_pos]
      · simp only [UInt8.le_iff_toNat_le, UInt8.reduceToNat]
        omega
      · simp only [UInt8.le_iff_toNat_le, UInt8.reduceToNat]
        omega

/-! ## Integers -/

theorem Token.IntegerText.digits {base : Nat} (h : IntegerText x base ds) : ds ≠ [] ∧ ∀ b ∈ ds, IsDigitOf base b := by
  cases h with
  | decimal h => exact ⟨h.nonempty, fun b hb => isDigitOf_of_decimal (h.all b hb)⟩
  | binary h => exact ⟨h.nonempty, fun b hb => isDigitOf_of_binary (h.all b hb)⟩
  | octal h => exact ⟨h.nonempty, fun b hb => isDigitOf_of_octal (h.all b hb)⟩
  | hexadecimal h => exact ⟨h.nonempty, fun b hb => isDigitOf_of_hexadecimal (h.all b hb)⟩

theorem Token.IntegerText.intDigits_eq {base : Nat} (h : IntegerText x base ds) : Lower.intDigits x = (ds, base) := by
  cases h with
  | decimal h =>
    unfold Lower.intDigits
    split
    · next mark d rest =>
      -- the mark is a digit, and so none of the letters that stand for a base
      obtain ⟨_, least, greatest⟩ := digitValue?_of_decimal (h.all mark (by simp))
      have letters : mark ≠ 0x62 ∧ mark ≠ 0x6F ∧ mark ≠ 0x78 := by
        refine ⟨?_, ?_, ?_⟩ <;> rintro rfl <;> simp at greatest
      rw [if_neg letters.1, if_neg letters.2.1, if_neg letters.2.2]
    · rfl
  | binary h | octal h | hexadecimal h =>
    obtain ⟨d, rest, rfl⟩ := List.exists_cons_of_ne_nil h.nonempty
    rfl

theorem Integer.readDigits_not_malformed {base : Nat} (h : ∀ b ∈ ds, IsDigitOf base b) (n : Nat) :
    readDigits base n ds ≠ .error .malformed := by
  induction ds generalizing n with
  | nil => exact nofun
  | cons b ds ih =>
    obtain ⟨d, small, value⟩ := h b (.head _)
    rw [readDigits, value]
    simp only [if_neg (Nat.not_le.2 small)]
    split
    · exact nofun
    · exact ih (fun c hc => h c (.tail _ hc)) _

theorem Integer.readSigned_digits {base : Nat} (some : ds ≠ []) (h : ∀ b ∈ ds, IsDigitOf base b) :
    readSigned ds base =
      match readUnsigned ds base with
      | .error e => .error e
      | .ok n => if n < 0x8000000000000000 then .ok (Int64.ofInt n) else .error .outOfRange := by
  obtain ⟨b, rest, rfl⟩ := List.exists_cons_of_ne_nil some
  obtain ⟨d, _, value⟩ := h b (.head _)
  have plus : b ≠ 0x2B := by
    rintro rfl
    cases value
  have minus : b ≠ 0x2D := by
    rintro rfl
    cases value
  unfold readSigned readSignedBy
  split
  next negative magnitude sign =>
  split at sign
  · next same => exact absurd (List.cons.inj same).1 plus
  · next same => exact absurd (List.cons.inj same).1 minus
  · cases sign
    rfl

theorem Integer.readSigned_not_malformed {base : Nat} (some : ds ≠ []) (h : ∀ b ∈ ds, IsDigitOf base b) :
    readSigned ds base ≠ .error .malformed := by
  have unsigned : readUnsigned ds base ≠ .error .malformed := by
    rw [readUnsigned, if_neg some]
    exact readDigits_not_malformed h 0
  rw [readSigned_digits some h]
  split
  · next read =>
    rintro ⟨⟩
    exact unsigned read
  · split <;> exact nofun

/-! ## Numbers -/

/-- The bytes of numbers: digits, the point, the marks of an exponent and its signs. -/
def IsNumberByte (b : UInt8) : Prop :=
  isDecimalDigit b = true ∨ b = 0x2E ∨ b = 0x65 ∨ b = 0x45 ∨ b = 0x2B ∨ b = 0x2D

theorem Token.NumberText.bytes (h : NumberText x) : ∀ b ∈ x, IsNumberByte b := by
  obtain ⟨whole, fraction, exponent⟩ := h
  intro b hb
  rcases List.mem_append.1 hb with hb | hb
  · exact .inl (whole.all b hb)
  rcases List.mem_append.1 hb with hb | hb
  · cases fraction with
    | none => cases hb
    | point ds =>
      rcases List.mem_cons.1 hb with rfl | hb
      · exact .inr (.inl rfl)
      · exact .inl (ds.all b hb)
  · cases exponent with
    | none => cases hb
    | power mark sign ds =>
      rcases List.mem_cons.1 hb with rfl | hb
      · rcases mark with rfl | rfl <;> simp [IsNumberByte]
      rcases List.mem_cons.1 hb with rfl | hb
      · rcases sign with rfl | rfl <;> simp [IsNumberByte]
      · exact .inl (ds.all b hb)

theorem IsNumberByte.plain (h : IsNumberByte b) :
    b ≠ 0x5F ∧ Bytes.lowerByte b ≠ 0x78 ∧ Bytes.lowerByte b ≠ 0x62 ∧ Bytes.lowerByte b ≠ 0x6F := by
  rcases h with digit | rfl | rfl | rfl | rfl | rfl
  · obtain ⟨_, least, greatest⟩ := digitValue?_of_decimal digit
    rw [lowerByte_of_decimal digit]
    refine ⟨?_, ?_, ?_, ?_⟩ <;> rintro rfl <;> simp at greatest
  all_goals decide

namespace Binary64

variable {x : Bytes}

theorem underscoresSeparate_of_plain {isDigit : UInt8 → Bool} (h : ∀ b ∈ x, b ≠ 0x5F) {last : LastSeen}
    (hl : last ≠ .underscore) : underscoresSeparate isDigit last x = true := by
  induction x generalizing last with
  | nil => simpa [underscoresSeparate] using hl
  | cons b x ih =>
    have ih := fun last hl => @ih (fun c hc => h c (.tail _ hc)) last hl
    rw [underscoresSeparate, if_neg (h b (.head _))]
    split
    · exact ih _ nofun
    · simp [hl, ih .other nofun]

theorem underscoresAllowed_of_number (h : ∀ b ∈ x, IsNumberByte b) : underscoresAllowed x = true := by
  have plain : underscoresSeparate isDecimalDigit .start x = true :=
    underscoresSeparate_of_plain (fun b hb => (h b hb).plain.1) nofun
  unfold underscoresAllowed
  split
  · next base rest =>
    obtain ⟨_, sixteen, two, eight⟩ := (h base (by simp)).plain
    rw [if_neg sixteen, if_neg (by simp [two, eight])]
    exact plain
  · exact plain

theorem readDigits_append {ds : Bytes} (h : Token.Digits isDecimalDigit ds) (rest : Bytes) (d : Digits) :
    ∃ d' : Digits, d'.any = true ∧ d'.point = d.point ∧
      readDigits 10 isDecimalDigit d (ds ++ rest) = readDigits 10 isDecimalDigit d' rest := by
  obtain ⟨some, all⟩ := h
  have step {b : UInt8} (hb : isDecimalDigit b = true) (d : Digits) (rest : Bytes) :
      ∃ d' : Digits, d'.any = true ∧ d'.point = d.point ∧
        readDigits 10 isDecimalDigit d (b :: rest) = readDigits 10 isDecimalDigit d' rest := by
    obtain ⟨_, least, greatest⟩ := digitValue?_of_decimal hb
    have underscore : b ≠ 0x5F := by
      rintro rfl
      simp at greatest
    have point : ¬(b = 0x2E ∧ ¬d.point) := by
      rintro ⟨rfl, _⟩
      simp at least
    refine ⟨_, ?_, ?_, by rw [readDigits, if_neg underscore, if_neg point, if_pos hb]⟩ <;> rfl
  induction ds generalizing d with
  | nil => exact absurd rfl some
  | cons b ds ih =>
    obtain ⟨d₁, any₁, point₁, read₁⟩ := step (all b (.head _)) d (ds ++ rest)
    cases ds with
    | nil => exact ⟨d₁, any₁, point₁, read₁⟩
    | cons b' ds =>
      obtain ⟨d₂, any₂, point₂, read₂⟩ := ih d₁ nofun fun c hc => all c (.tail _ hc)
      exact ⟨d₂, any₂, point₂.trans point₁, read₁.trans read₂⟩

theorem readDigits_exponent {exponent : Bytes} (h : ExponentText exponent) (d : Digits) :
    (readDigits 10 isDecimalDigit d exponent).any = d.any ∧
      (readDigits 10 isDecimalDigit d exponent).rest = exponent := by
  cases h with
  | none => exact ⟨rfl, rfl⟩
  | power mark sign ds =>
    rcases mark with rfl | rfl <;> exact ⟨rfl, rfl⟩

theorem readDigits_number {whole fraction exponent : Bytes} (hw : Token.Digits isDecimalDigit whole)
    (hf : FractionText fraction) (he : ExponentText exponent) :
    (readDigits 10 isDecimalDigit {} (whole ++ (fraction ++ exponent))).any = true ∧
      (readDigits 10 isDecimalDigit {} (whole ++ (fraction ++ exponent))).rest = exponent := by
  obtain ⟨d, any, point, read⟩ := readDigits_append hw (fraction ++ exponent) {}
  rw [read]
  cases hf with
  | none =>
    obtain ⟨any', rest⟩ := readDigits_exponent he d
    exact ⟨any'.trans any, rest⟩
  | @point ds hds =>
    have passed : readDigits 10 isDecimalDigit d (0x2E :: ds ++ exponent) =
        readDigits 10 isDecimalDigit { d with point := true } (ds ++ exponent) := by
      rw [List.cons_append, readDigits, if_neg (by decide), if_pos ⟨rfl, by simp [point]⟩]
    obtain ⟨d', any', _, read'⟩ := readDigits_append hds exponent { d with point := true }
    obtain ⟨any'', rest⟩ := readDigits_exponent he d'
    rw [passed, read']
    exact ⟨any''.trans any', rest⟩

theorem readExponent?_isSome {sign : UInt8} (hs : sign = 0x2B ∨ sign = 0x2D) {ds : Bytes}
    (h : Token.Digits isDecimalDigit ds) : (readExponent? (sign :: ds)).isSome = true := by
  obtain ⟨some, all⟩ := h
  obtain ⟨b, rest, rfl⟩ := List.exists_cons_of_ne_nil some
  have first : (b :: rest).head?.any isDecimalDigit = true := by simpa using all b (.head _)
  have every : (b :: rest).all (fun b => isDecimalDigit b || b == 0x5F) = true := by
    rw [List.all_eq_true]
    intro c hc
    rw [all c hc, Bool.true_or]
  rcases hs with rfl | rfl <;> simp only [readExponent?, first, every, Bool.and_self, if_true, Option.isSome]

theorem scaled_not_malformed (value base : Nat) (power : Int) :
    scaled value base power ≠ .error .malformed := by
  unfold scaled
  split
  · exact nofun
  split
  · exact nofun
  split
  · exact nofun
  split <;> exact nofun

theorem readUnsigned_not_malformed (h : NumberText x) : readUnsigned x ≠ .error .malformed := by
  have bytes := h.bytes
  have allowed := underscoresAllowed_of_number bytes
  obtain @⟨w, f, e, whole, fraction, exponent⟩ := h
  obtain ⟨any, rest⟩ := readDigits_number whole fraction exponent
  unfold readUnsigned
  extract_lets hex d mark power?
  -- the second byte marks no base, so the text is read with decimal digits
  have decimal : hex = false := by
    simp only [hex]
    split
    · next base _ _ same => exact decide_eq_false (bytes base (by simp [same])).plain.2.1
    · rfl
  have hd : d = readDigits 10 isDecimalDigit {} (w ++ (f ++ e)) := by simp only [d, decimal]; rfl
  rw [← hd] at any rest
  have power : power?.isSome = true := by
    simp only [power?, rest, mark, decimal]
    cases exponent with
    | none => rfl
    | power hmark hsign ds =>
      have some := readExponent?_isSome hsign ds
      rcases hmark with rfl | rfl <;> exact some
  obtain ⟨p, hp⟩ := Option.isSome_iff_exists.1 power
  rw [hp]
  simp only [decimal, Bool.false_eq_true, if_false]
  rw [if_pos ⟨any, allowed⟩]
  exact scaled_not_malformed _ _ _

/-- A number in writing starts with a digit, so it has no sign and is none of the words. -/
theorem ofText_number (h : NumberText x) : ofText x = readUnsigned x := by
  obtain ⟨b, rest, rfl, digit⟩ : ∃ b rest, x = b :: rest ∧ isDecimalDigit b = true := by
    obtain @⟨w, f, e, whole, _, _⟩ := h
    obtain ⟨b, rest, rfl⟩ := List.exists_cons_of_ne_nil whole.nonempty
    exact ⟨b, _, rfl, whole.all b (.head _)⟩
  obtain ⟨_, least, greatest⟩ := digitValue?_of_decimal digit
  have word {w : Bytes} {c : UInt8} (first : w.head? = some c) (letter : 0x39 < c.toNat) :
      Bytes.lower (b :: rest) ≠ w := by
    rintro rfl
    have same : Bytes.lowerByte b = c := Option.some.inj first
    rw [← same, lowerByte_of_decimal digit] at letter
    exact Nat.not_lt.2 greatest letter
  unfold ofText
  split
  next sign body signed =>
  split at signed
  · next same =>
    rw [(List.cons.inj same).1] at least
    simp at least
  · next same =>
    rw [(List.cons.inj same).1] at least
    simp at least
  · cases signed
    extract_lets signed word'
    rw [if_neg, if_neg]
    · show (readUnsigned (b :: rest)).map (fun y => y) = _
      cases readUnsigned (b :: rest) <;> rfl
    · rintro ⟨nan, _⟩
      exact word (c := 0x6E) (by decide) (by decide) nan
    · rintro (inf | infinity)
      · exact word (c := 0x69) (by decide) (by decide) inf
      · exact word (c := 0x69) (by decide) (by decide) infinity

/-- A number in writing denotes a number, unless it is too great. -/
theorem ofText_not_malformed (h : NumberText x) : ofText x ≠ .error .malformed := by
  rw [ofText_number h]
  exact readUnsigned_not_malformed h

end Binary64

/-! ## Literals -/

namespace Lower
open Ast Machine

variable {raw : Bytes}

theorem unescape_fault {span : Span} {f : Fault} (long : 2 ≤ raw.length) (h : unescape raw span = .error f) :
    f.code = .invalidEscape := by
  unfold unescape at h
  rw [if_neg (by omega)] at h
  split at h
  · cases h
  · cases h
    rfl

theorem numberText_of_literal {k : Token.Kind} {kind : LiteralKind} (pair : (k, kind) ∈ Grammar.literalKinds)
    (number : kind = .decimal ∨ kind = .exponent) (text : LiteralText k raw) : NumberText raw := by
  rcases number with rfl | rfl
  all_goals
    simp only [Grammar.literalKinds, List.mem_cons, Prod.mk.injEq, reduceCtorEq, and_false, and_true,
      false_or, or_false, List.not_mem_nil] at pair
    subst pair
    exact text

/-- What can be wrong with a literal whose text is one of its token's class. -/
theorem literalInstr_fault {k : Token.Kind} {kind : LiteralKind} (pair : (k, kind) ∈ Grammar.literalKinds)
    (text : LiteralText k raw) {span : Span} {f : Fault} (h : literalInstr (.known kind) raw span = .error f) :
    f.code = .literalOutOfRange ∨ f.code = .invalidEscape ∨
      (f.code = .malformedLiteral ∧ k = .charLit ∧ f.span = span) := by
  cases kind with
  | int =>
    obtain rfl : k = .intLit := by simpa [Grammar.literalKinds] using pair
    obtain ⟨base, ds, text⟩ := text
    obtain ⟨some, digits⟩ := text.digits
    simp only [literalInstr, instrOf, text.intDigits_eq] at h
    split at h
    · cases h
    · cases h
      exact .inl rfl
    · next malformed => exact absurd malformed (Integer.readSigned_not_malformed some digits)
  | decimal | exponent =>
    have number := numberText_of_literal pair (by decide) text
    simp only [literalInstr, instrOf] at h
    split at h
    · cases h
    · cases h
      exact .inl rfl
    · next malformed => exact absurd malformed (Binary64.ofText_not_malformed number)
  | bool => cases h
  | char =>
    obtain rfl : k = .charLit := by simpa [Grammar.literalKinds] using pair
    simp only [literalInstr, instrOf] at h
    split at h
    · next bad =>
      cases h
      exact .inr (.inl (unescape_fault text bad))
    · split at h
      · cases h
      · cases h
        exact .inr (.inr ⟨rfl, rfl, rfl⟩)
  | string =>
    obtain rfl : k = .stringLit := by simpa [Grammar.literalKinds] using pair
    simp only [literalInstr, instrOf] at h
    cases decoded : unescape raw span with
    | error bad =>
      rw [decoded] at h
      cases h
      exact .inr (.inl (unescape_fault text decoded))
    | ok text =>
      rw [decoded] at h
      cases h

end Lower

end LetStack
