import LetStack.Proofs.Text.Boundary
import LetStack.Proofs.Token.Longest
import LetStack.Proofs.Token.Order
import LetStack.Proofs.Token.Quoted

/-!
Tokens do not cut characters. A spelled text is one of characters (`Spelled.encoded`), and a quoted literal ends with
an ASCII quote (`Matches.encoded`). In a source of characters every token has a text of characters and a span between
them (`tokenize_aligned`).
-/

namespace LetStack

/-- A span that starts and ends between characters of the source. -/
structure Span.Aligned (src : Bytes) (s : Span) : Prop where
  start : Utf8.Boundary src s.start.toNat
  stop : Utf8.Boundary src s.stop.toNat

namespace Token
open Utf8

/-! ## Texts of classes -/

/-- A text between two quotes, which are ASCII. -/
def InQuotes (x : Bytes) : Prop := ∃ quote u, x = quote :: (u ++ [quote]) ∧ quote.toNat < 128

variable {x w : Bytes} {k : Kind} {cl : Class} {tok : Token}

theorem InQuotes.encoded {rest : Bytes} (h : InQuotes x) (whole : Encoded (x ++ rest)) : Encoded x := by
  obtain ⟨quote, u, rfl, ascii⟩ := h
  rw [← List.cons_append, List.append_assoc] at whole
  exact (whole.around_ascii ascii).1.append (encoded_ascii (by simpa using ascii))

theorem InQuotes.two_le_length (h : InQuotes x) : 2 ≤ x.length := by
  obtain ⟨quote, u, rfl, _⟩ := h
  simp

theorem isHexDigit_ascii {b : UInt8} (h : isHexDigit b = true) : b.toNat < 128 := by
  simp only [isHexDigit, isDecimalDigit, Bool.or_eq_true, Bool.and_eq_true, decide_eq_true_eq,
    UInt8.le_iff_toNat_le, UInt8.reduceToNat] at h
  omega

theorem isHexDigit_of_decimal (b : UInt8) (h : isDecimalDigit b = true) : isHexDigit b = true := by
  rw [isHexDigit, h, Bool.true_or, Bool.true_or]

theorem Digits.encoded {isDigit : UInt8 → Bool} (h : Digits isDigit x)
    (among : ∀ b, isDigit b = true → isHexDigit b = true) : Encoded x :=
  encoded_ascii fun b member => isHexDigit_ascii (among b (h.all b member))

theorem IntegerText.encoded {ds : Bytes} {base : Nat} (h : IntegerText x base ds) : Encoded x := by
  -- a base is marked by two ASCII letters in front of the digits
  have marked {mark : UInt8} {ds : Bytes} (ascii : mark.toNat < 128) (digits : Encoded ds) :
      Encoded (0x30 :: mark :: ds) :=
    (encoded_ascii (x := [0x30, mark]) (by simpa using ascii)).append digits
  cases h with
  | decimal digits => exact digits.encoded isHexDigit_of_decimal
  | binary digits =>
    refine marked (by decide) (digits.encoded fun b hb => ?_)
    rcases Bool.or_eq_true _ _ ▸ hb with h | h <;> rw [eq_of_beq h] <;> decide
  | octal digits =>
    refine marked (by decide) (digits.encoded fun b hb => isHexDigit_of_decimal b ?_)
    simp only [isOctalDigit, isDecimalDigit, Bool.and_eq_true, decide_eq_true_eq, UInt8.le_iff_toNat_le,
      UInt8.reduceToNat] at hb ⊢
    omega
  | hexadecimal digits => exact marked (by decide) (digits.encoded fun _ => id)

theorem FractionText.encoded (h : FractionText x) : Encoded x := by
  cases h with
  | none => exact .nil
  | point digits => exact (encoded_ascii (x := [0x2E]) (by simp)).append (digits.encoded isHexDigit_of_decimal)

theorem ExponentText.encoded (h : ExponentText x) : Encoded x := by
  cases h with
  | none => exact .nil
  | @power mark sign _ marked signed digits =>
    have front : Encoded [mark, sign] := by
      rcases marked with rfl | rfl <;> rcases signed with rfl | rfl <;> exact encoded_ascii (by simp)
    exact front.append (digits.encoded isHexDigit_of_decimal)

theorem encoded_of_spelled {kinds : List Kind} (h : (w, k) ∈ Kind.spelled kinds) : Encoded w := by
  obtain ⟨_, _, found⟩ := List.mem_filterMap.1 h
  obtain ⟨s, _, same⟩ := Option.map_eq_some_iff.1 found
  cases same
  exact encoded_ofString s

theorem Spelled.encoded (h : Spelled cl k w) : Encoded w := by
  cases h with
  | punctuation entry => exact encoded_of_spelled entry
  | word entry =>
    cases (word_letters entry).1 with
    | identifier _ _ => exact ⟨_, rfl⟩
  | integer text => exact text.encoded
  | decimal whole fraction _ => exact (whole.encoded isHexDigit_of_decimal).append fraction.encoded
  | exponent whole fraction exponent _ =>
    exact (whole.encoded isHexDigit_of_decimal).append (fraction.encoded.append exponent.encoded)
  | identifier _ _ => exact ⟨_, rfl⟩

theorem Spelled.kind_ne_invalid (h : Spelled cl k w) : k ≠ .invalid := by
  have punctuation : ∀ entry ∈ Kind.punctuationTable, entry.2 ≠ .invalid := by decide
  have words : ∀ entry ∈ Kind.fixedWords, entry.2 ≠ .invalid := by decide
  cases h with
  | punctuation entry => exact punctuation _ entry
  | word entry => exact words _ entry
  | integer _ | decimal _ _ _ | exponent _ _ _ _ | identifier _ _ => decide

theorem Spelled.literalText (h : Spelled cl k w) : LiteralText k w := by
  have punctuation : ∀ entry ∈ Kind.punctuationTable, entry.2.isLiteral = false := by decide
  have words : ∀ entry ∈ Kind.fixedWords, entry.2.isLiteral = false ∨ entry.2 = .boolLit := by decide
  cases h with
  | punctuation entry => exact literalText_of_fixed (.inl (punctuation _ entry)) _
  | word entry => exact literalText_of_fixed (words _ entry) _
  | integer text => exact ⟨_, _, text⟩
  | decimal whole fraction _ =>
    have number := NumberText.parts whole fraction .none
    rwa [List.append_nil] at number
  | exponent whole fraction exponent _ => exact .parts whole fraction exponent
  | identifier _ _ => trivial

/-- What a class matches is inside the text, and is one of characters or else between quotes. -/
theorem Matches.text {x : Bytes} {cl : Class} {k : Kind} {n : Nat} (h : Matches x cl k n) :
    n ≤ x.length ∧ k ≠ .invalid ∧
      (Encoded (x.take n) ∨ (k = .charLit ∨ k = .stringLit) ∧ InQuotes (x.take n)) := by
  cases h with
  | spelled text start =>
    rw [← List.prefix_iff_eq_take.1 start]
    exact ⟨start.length_le, text.kind_ne_invalid, .inl text.encoded⟩
  | character some =>
    obtain ⟨inside, matched⟩ := (charLength_longest x).mem some
    obtain ⟨u, same, _⟩ := mem_charPattern.1 matched
    exact ⟨inside, by decide, .inr ⟨.inl rfl, 0x27, u, same, by decide⟩⟩
  | string some =>
    obtain ⟨inside, matched⟩ := (stringLength_longest x).mem some
    obtain ⟨u, same, _⟩ := mem_stringPattern.1 matched
    exact ⟨inside, by decide, .inr ⟨.inr rfl, 0x22, u, same, by decide⟩⟩

theorem Matches.literalText {n : Nat} (h : Matches x cl k n) : LiteralText k (x.take n) := by
  cases h with
  | spelled text start =>
    rw [← List.prefix_iff_eq_take.1 start]
    exact text.literalText
  | character some =>
    obtain ⟨u, same, _⟩ := mem_charPattern.1 ((charLength_longest x).mem some).2
    exact InQuotes.two_le_length ⟨0x27, u, same, by decide⟩
  | string some =>
    obtain ⟨u, same, _⟩ := mem_stringPattern.1 ((stringLength_longest x).mem some).2
    exact InQuotes.two_le_length ⟨0x22, u, same, by decide⟩

theorem Matches.encoded {n : Nat} (h : Matches x cl k n) (whole : Encoded x) : Encoded (x.take n) := by
  rcases h.text.2.2 with text | ⟨_, quoted⟩
  · exact text
  · rw [← List.take_append_drop n x] at whole
    exact quoted.encoded whole

/-- Where skipping stopped in front of a character, the token that is measured displaces all others. -/
theorem measure_best {c : Char} (found : decode? x = some c) (noBreak : lineBreakLength x = 0)
    (noBlank : blankLength x = 0) : ∃ cl, Best x cl (Scanner.measure x).1 (Scanner.measure x).2 := by
  obtain ⟨cl, best⟩ := longestMatch_some found noBreak noBlank
  simp only [Scanner.measure, if_neg (Nat.ne_of_gt best.isMatch.pos)]
  exact ⟨cl, best⟩

theorem encoded_measure (whole : Encoded x) (nonempty : x ≠ []) (noBreak : lineBreakLength x = 0)
    (noBlank : blankLength x = 0) : Encoded (x.take (Scanner.measure x).2) := by
  obtain ⟨c, found⟩ : ∃ c, decode? x = some c := by
    obtain ⟨cs, rfl⟩ := whole
    obtain ⟨c, cs, rfl⟩ := List.exists_cons_of_ne_nil fun empty => nonempty (congrArg ofChars empty)
    exact ⟨c, decode?_encode c _⟩
  obtain ⟨cl, best⟩ := measure_best found noBreak noBlank
  exact best.isMatch.encoded whole

/-! ## Tokens of a source -/

theorem encoded_of_next? {s t : Scanner} (h : s.next? = some (tok, t)) (whole : Encoded s.rest) :
    Encoded tok.text ∧ Encoded t.rest := by
  obtain ⟨gap, ⟨cs, trivia, _⟩, split, _⟩ := s.skipTrivia_gap
  obtain ⟨nonempty, kind, n, measured, rfl, rfl⟩ := Scanner.next?_eq_some h
  obtain ⟨noBreak, noBlank⟩ := s.skipTrivia_stops nonempty
  rw [split] at whole
  have ahead : Encoded s.skipTrivia.rest := Encoded.of_append ⟨cs, trivia⟩ whole
  have text := encoded_measure ahead nonempty noBreak noBlank
  rw [measured] at text
  rw [← List.take_append_drop n s.skipTrivia.rest] at ahead
  exact ⟨text, text.of_append ahead⟩

theorem encoded_of_mem_run (s : Scanner) (whole : Encoded s.rest) (h : tok ∈ s.run.1) : Encoded tok.text := by
  fun_induction Scanner.run s with
  | case1 => cases h
  | case2 s first t next toks last rest ih =>
    obtain ⟨text, behind⟩ := encoded_of_next? next whole
    rw [rest] at ih
    cases h with
    | head => exact text
    | tail _ later => exact ih behind later

/-- Where tokens with texts of characters lie in such a text, their spans start and end between characters. -/
theorem Laid.aligned {offset : Nat} {toks : List Token} (h : Laid offset x toks) {before : Bytes}
    (front : Encoded before) (place : before.length = offset) (whole : Encoded x)
    (texts : ∀ tok ∈ toks, Encoded tok.text) : ∀ tok ∈ toks, tok.span.Aligned (before ++ x) := by
  induction h generalizing before with
  | trivia _ => exact fun _ member => absurd member List.not_mem_nil
  | @token offset gap rest first toks trivia nonempty start stop length later ih =>
    obtain ⟨text, others⟩ := List.forall_mem_cons.1 texts
    obtain ⟨cs, rfl, _⟩ := trivia
    have gapped : Encoded (before ++ ofChars cs) := front.append ⟨cs, rfl⟩
    have ahead : Encoded (first.text ++ rest) := Encoded.of_append ⟨cs, rfl⟩ whole
    have behind : Encoded rest := text.of_append ahead
    have passed := gapped.append text
    have size := length_before place (ofChars cs) first.text
    rw [← List.append_assoc] at size
    refine List.forall_mem_cons.2 ⟨⟨?_, ?_⟩, ?_⟩
    · have boundary := boundary_append gapped ahead
      rw [List.length_append, place, List.append_assoc] at boundary
      rwa [start]
    · have boundary := boundary_append passed behind
      rw [size, List.append_assoc, List.append_assoc] at boundary
      rwa [stop]
    · have rest := ih passed size behind others
      rwa [List.append_assoc, List.append_assoc] at rest

theorem tokenize_aligned {src : Bytes} (whole : Encoded src) (short : src.length < UInt32.size)
    (member : tok ∈ tokenize src) : Encoded tok.text ∧ tok.span.Aligned src := by
  have texts : ∀ tok ∈ tokenize src, Encoded tok.text := fun tok => encoded_of_mem_run (.ofSource src) whole
  exact ⟨texts tok member, (tokenize_laid short).aligned .nil rfl whole texts tok member⟩

end Token

end LetStack
