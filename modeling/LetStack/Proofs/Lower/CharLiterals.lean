import LetStack.Proofs.Lower.EscapeGrammar
import LetStack.Proofs.Token.Scanned

/-!
A character literal whose body decodes to the bytes of one character pushes it (`char_literal_pushes_character`). A
single byte of no character pushes U+FFFD (`stray_byte_pushed_as_character`).
-/

namespace LetStack

namespace Utf8

/-! ## Texts of one piece -/

theorem decode?_high {b : UInt8} (high : 0x80 ≤ b) : decode? [b] = none := by
  cases found : decode? [b] with
  | none => rfl
  | some c =>
    obtain ⟨rest, same⟩ := encode_of_decode? found
    obtain ⟨whole, rfl⟩ := (List.append_eq_singleton_iff.1 same.symm).resolve_left fun h => encode_ne_nil c h.1
    have ascii := (whole ▸ encoded_encode c : Encoded [b]).ascii
    exact absurd (UInt8.le_iff_toNat_le.1 high) (Nat.not_le.2 ascii)

theorem pieces_eq_nil {x : Bytes} (h : pieces x = []) : x = [] := by
  cases x with
  | nil => rfl
  | cons b x =>
    rw [pieces] at h
    split at h <;> cases h

/-- A text of one piece is the bytes of a character, or one byte that is no ASCII. -/
theorem pieces_eq_singleton_iff {x : Bytes} {p : Piece} :
    pieces x = [p] ↔ (∃ c, x = encode c ∧ p = .char c) ∨ ∃ b, 0x80 ≤ b ∧ x = [b] ∧ p = .stray b := by
  constructor
  · intro single
    cases found : decode? x with
    | some c =>
      obtain ⟨rest, rfl⟩ := encode_of_decode? found
      rw [pieces_encode] at single
      obtain ⟨rfl, nothing⟩ := List.cons.inj single
      exact .inl ⟨c, by rw [pieces_eq_nil nothing, List.append_nil], rfl⟩
    | none =>
      cases x with
      | nil =>
        rw [pieces] at single
        cases single
      | cons b rest =>
        rw [pieces, found] at single
        obtain ⟨rfl, nothing⟩ := List.cons.inj single
        obtain rfl := pieces_eq_nil nothing
        refine .inr ⟨b, UInt8.le_iff_toNat_le.2 (Nat.le_of_not_lt fun ascii => ?_), rfl, rfl⟩
        rw [decode?_ascii ascii] at found
        cases found
  · rintro (⟨c, rfl, rfl⟩ | ⟨b, high, rfl, rfl⟩)
    · have single := pieces_encode c []
      rwa [List.append_nil, pieces] at single
    · rw [pieces, decode?_high high]
      simp only [pieces]

end Utf8

namespace Token

/-! ## Tokens -/

theorem Spelled.ne_charLit {cl : Class} {k : Kind} {w : Bytes} (h : Spelled cl k w) : k ≠ .charLit := by
  have punctuation : ∀ entry ∈ Kind.punctuationTable, entry.2 ≠ .charLit := by decide
  have words : ∀ entry ∈ Kind.fixedWords, entry.2 ≠ .charLit := by decide
  cases h with
  | punctuation entry => exact punctuation _ entry
  | word entry => exact words _ entry
  | integer _ | decimal _ _ _ | exponent _ _ _ _ | identifier _ _ => decide

theorem charLit_text {src : Bytes} {tok : Token} (member : tok ∈ tokenize src) (kind : tok.kind = .charLit) :
    ∃ body, tok.text = 0x27 :: (body ++ [0x27]) := by
  obtain ⟨placed, scanned, same⟩ := exists_scanned (.ofSource src)
  rw [tokenize, ← same] at member
  obtain ⟨p, found, rfl⟩ := List.mem_map.1 member
  obtain ⟨_, _, rest, _, _, read, _⟩ := scanned.stands [] rfl (.inl rfl) found
  rcases read.best_or_stray with ⟨cl, best⟩ | ⟨invalid, _⟩
  · have matched := best.isMatch
    rw [kind] at matched
    generalize size : p.2.text.length = n at matched
    cases matched with
    | spelled text _ => exact absurd rfl text.ne_charLit
    | character some =>
      obtain ⟨_, matched⟩ := (charLength_longest (p.2.text ++ rest)).mem some
      rw [← size, List.take_left] at matched
      obtain ⟨body, text, _⟩ := mem_charPattern.1 matched
      exact ⟨body, text⟩
  · rw [kind] at invalid
    cases invalid

end Token

namespace Lower
open Ast Machine Utf8 Token

/-! ## Lowering -/

theorem toInt_ofInt_char (c : Char) : (Int64.ofInt c.toNat).toInt = c.toNat := by
  have small : c.toNat < 0x110000 := by
    rcases (c.valid : c.toNat < 0xD800 ∨ 0xDFFF < c.toNat ∧ c.toNat < 0x110000) with low | ⟨_, high⟩
    · exact Nat.lt_trans low (by decide)
    · exact high
  exact Int64.toInt_ofInt_of_le (by omega) (by omega)

theorem literalInstr_char_iff {raw : Bytes} {span : Span} {i : Instr} :
    literalInstr (.known .char) raw span = .ok i ↔ ∃ s p, unescape raw span = .ok s ∧ pieces s = [p] ∧
      i = { op := .pushChar, int := Int64.ofInt p.shown.toNat } := by
  simp only [literalInstr, instrOf]
  constructor
  · intro h
    split at h
    · cases h
    next s decoded =>
    split at h
    · next p single => exact ⟨s, p, decoded, single, (Except.ok.inj h).symm⟩
    · cases h
  · rintro ⟨s, p, decoded, single, rfl⟩
    rw [decoded]
    simp only [single]

/-- What is pushed for a character literal: the character whose bytes it stands for, or U+FFFD for a byte by itself that
is none. -/
theorem lowerLiteral_char_iff {raw : Bytes} {span : Span} {n : Int64} :
    lowerLiteral (.known .char) raw span = .emit { op := .pushChar, int := n } span ↔
      ∃ (s : Bytes) (c : Char), unescape raw span = .ok s ∧ n.toInt = c.toNat ∧
        (s = encode c ∨ ∃ b : UInt8, 0x80 ≤ b ∧ s = [b] ∧ c = '\uFFFD') := by
  constructor
  · intro emitted
    rw [lowerLiteral_eq] at emitted
    unfold Lowered.ofInstr at emitted
    split at emitted
    case h_2 => cases congrArg Lowered.code emitted
    next i found =>
    obtain ⟨s, p, decoded, single, rfl⟩ := literalInstr_char_iff.1 found
    have operands : [Int64.ofInt p.shown.toNat] = [n] := congrArg (fun l => l.code.map Instr.int) emitted
    obtain rfl := (List.cons.inj operands).1
    refine ⟨s, p.shown, decoded, toInt_ofInt_char p.shown, ?_⟩
    rcases pieces_eq_singleton_iff.1 single with ⟨c, rfl, rfl⟩ | ⟨b, high, rfl, rfl⟩
    · exact .inl rfl
    · exact .inr ⟨b, high, rfl, rfl⟩
  · rintro ⟨s, c, decoded, value, text⟩
    obtain ⟨p, single, shown⟩ : ∃ p, pieces s = [p] ∧ p.shown = c := by
      rcases text with rfl | ⟨b, high, rfl, rfl⟩
      · exact ⟨.char c, pieces_eq_singleton_iff.2 (.inl ⟨c, rfl, rfl⟩), rfl⟩
      · exact ⟨.stray b, pieces_eq_singleton_iff.2 (.inr ⟨b, high, rfl, rfl⟩), rfl⟩
    have found := literalInstr_char_iff.2 ⟨s, p, decoded, single, rfl⟩
    have same : Int64.ofInt p.shown.toNat = n := by
      rw [← Int64.toInt_inj, toInt_ofInt_char, shown, value]
    rw [lowerLiteral_eq, found, same]
    rfl

/-- A character literal stands between two quotes. It pushes a number exactly if this is the number of a character and
its body stands for the bytes of this character, or else for one byte that is no character; then the number is that of
U+FFFD. -/
theorem char_literal_pushes_character {src : Bytes} {tok : Token} (member : tok ∈ tokenize src)
    (kind : tok.kind = .charLit) :
    ∃ body, tok.text = 0x27 :: (body ++ [0x27]) ∧
      ∀ n : Int64, lowerLiteral (.known .char) tok.text tok.span = .emit { op := .pushChar, int := n } tok.span ↔
        ∃ (s : Bytes) (c : Char), Decodes body s ∧ n.toInt = c.toNat ∧
          (s = encode c ∨ ∃ b : UInt8, 0x80 ≤ b ∧ s = [b] ∧ c = '\uFFFD') := by
  obtain ⟨body, text⟩ := charLit_text member kind
  refine ⟨body, text, fun n => ?_⟩
  rw [lowerLiteral_char_iff, text]
  simp only [unescape_ok_iff]

/-- The number in braces is that of the character pushed for it. -/
theorem lambda_is_pushed :
    let body : Bytes := [0x5C, 0x75, 0x7B, 0x33, 0x62, 0x62, 0x7D]
    let tok : Token := ⟨.charLit, ⟨0, 9, 0, 9, 9⟩, 0x27 :: (body ++ [0x27])⟩
    tok ∈ tokenize (0x27 :: (body ++ [0x27])) ∧ Decodes body (encode 'λ') ∧
      lowerLiteral (.known .char) tok.text tok.span = .emit { op := .pushChar, int := 0x3BB } tok.span := by
  intro body tok
  have member : tok ∈ tokenize (0x27 :: (body ++ [0x27])) := by decide +kernel
  have digits : Digits isHexDigit [0x33, 0x62, 0x62] := ⟨by decide, List.all_eq_true.1 (by decide)⟩
  have written : Decodes body (encode 'λ') := EscapeText.decodes (.number digits (by decide) (by decide +kernel))
  obtain ⟨body', text, pushes⟩ := char_literal_pushes_character member rfl
  obtain rfl : body = body' := List.append_cancel_right (List.cons.inj text).2
  exact ⟨member, written, (pushes 0x3BB).2 ⟨_, 'λ', written, by decide, .inl rfl⟩⟩

/-- The byte 0xFF between quotes is a character literal. It pushes U+FFFD, but the byte is not what any character is
written with. -/
theorem stray_byte_pushed_as_character :
    let tok : Token := ⟨.charLit, ⟨0, 3, 0, 3, 3⟩, [0x27, 0xFF, 0x27]⟩
    tok ∈ tokenize [0x27, 0xFF, 0x27] ∧
      lowerLiteral (.known .char) tok.text tok.span = .emit { op := .pushChar, int := 0xFFFD } tok.span ∧
      ∀ s, Decodes [0xFF] s → ∀ c, s ≠ encode c := by
  intro tok
  have plain : Decodes [0xFF] [0xFF] := decodes_self (by decide)
  refine ⟨by decide +kernel, lowerLiteral_char_iff.2 ⟨[0xFF], '\uFFFD', ?_, by decide, .inr ⟨0xFF, ?_, rfl, rfl⟩⟩, ?_⟩
  · exact (@unescape_ok_iff [0xFF] 0x27 0x27 tok.span _).2 plain
  · decide
  · rintro s decoded c rfl
    have same := (plain.unescapeFrom_eq 0).symm.trans (decoded.unescapeFrom_eq 0)
    have ascii : Encoded [0xFF] := ⟨[c], by rw [Except.ok.inj same]; simp⟩
    exact absurd ascii.ascii (by decide)

end Lower

end LetStack
