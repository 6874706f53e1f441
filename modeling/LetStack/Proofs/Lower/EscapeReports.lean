import LetStack.Proofs.Lower.Escapes
import LetStack.Proofs.Token.Lines

/-!
The span of an invalid escape is computed from that of its literal in 32 bits, and all sums and differences stay in
range (`FitsWords`). It lies between the quotes and covers what the message quotes (`bad_escape_is_pointed_at`).
-/

namespace LetStack.Token

/-! ## Columns of tokens -/

theorem tokenize_reported {src : Bytes} (short : src.length < UInt32.size) {tok : Token} (member : tok ∈ tokenize src) :
    Scanner.Reported (breaksBetween src (tokenize src)) tok := by
  have first : breaksBetween src (tokenize src) 0 = false := by rw [breaksBetween, endsLineBreak_zero, Bool.false_and]
  have begun : Scanner.Counted (breaksBetween src (tokenize src)) (.ofSource src) := by
    have none : upTo (breaksBetween src (tokenize src)) 0 = [] := List.filter_cons_of_neg (by simp [first])
    exact ⟨(congrArg List.length none).symm, (congrArg (·.getLast?.getD 0) none).symm⟩
  exact Scanner.run_reported short (tokenize src) (.ofSource src) ⟨[], rfl, rfl⟩ begun (Nat.le_refl 0)
    (fun _ => .inr) (fun _ => id) tok member

end LetStack.Token

namespace LetStack.Lower
open Ast Token

/-! ## Places in words -/

/-- The place of `n` bytes, `off` bytes from the start of a literal, stays in range: no sum reaches 2^32, and nothing is
taken from what is less. -/
structure FitsWords (lit : Span) (off n : Nat) : Prop where
  sum : lit.start.toNat + off + n < UInt32.size
  stop : lit.start.toNat + off + n ≤ lit.stop.toNat
  column : lit.stop.toNat - (lit.start.toNat + off + n) ≤ lit.column.toNat

theorem FitsWords.escapeSpan_eq {lit : Span} {off n : Nat} (h : FitsWords lit off n) :
    (escapeSpan lit off n).start.toNat = lit.start.toNat + off ∧
    (escapeSpan lit off n).stop.toNat = lit.start.toNat + off + n ∧
    (escapeSpan lit off n).length.toNat = n ∧
    (escapeSpan lit off n).column.toNat = lit.column.toNat - (lit.stop.toNat - (lit.start.toNat + off + n)) := by
  obtain ⟨start, stop⟩ := escapeSpan_toNat h.stop
  have order : (escapeSpan lit off n).start ≤ (escapeSpan lit off n).stop := by
    rw [UInt32.le_iff_toNat_le, start, stop]
    exact Nat.le_add_right _ n
  have inside : (escapeSpan lit off n).stop ≤ lit.stop := by
    rw [UInt32.le_iff_toNat_le, stop]
    exact h.stop
  have behind : (lit.stop - (escapeSpan lit off n).stop).toNat = lit.stop.toNat - (lit.start.toNat + off + n) := by
    rw [UInt32.toNat_sub_of_le _ _ inside, stop]
  refine ⟨start, stop, ?_, ?_⟩
  · show ((escapeSpan lit off n).stop - (escapeSpan lit off n).start).toNat = n
    rw [UInt32.toNat_sub_of_le _ _ order, start, stop, Nat.add_sub_cancel_left]
  · show (lit.column - (lit.stop - (escapeSpan lit off n).stop)).toNat = _
    rw [UInt32.toNat_sub_of_le, behind]
    rw [UInt32.le_iff_toNat_le, behind]
    exact h.column

/-! ## Faults of literals -/

theorem unescape_of_invalidEscape {kind : LiteralKind} {raw : Bytes} {span : Span} {f : Fault}
    (h : literalInstr (.known kind) raw span = .error f) (code : f.code = .invalidEscape) :
    2 ≤ raw.length ∧ unescape raw span = .error f := by
  have decoding : unescape raw span = .error f := by
    cases kind with
    | int =>
      simp only [literalInstr, instrOf] at h
      split at h <;> cases h <;> cases code
    | decimal | exponent =>
      simp only [literalInstr, instrOf] at h
      split at h <;> cases h <;> cases code
    | bool => cases h
    | char =>
      simp only [literalInstr, instrOf] at h
      split at h
      · next bad =>
        cases h
        exact bad
      · split at h <;> cases h
        cases code
    | string => exact error_of_map_error h
  refine ⟨Nat.le_of_not_lt fun bare => ?_, decoding⟩
  rw [unescape, if_pos bare] at decoding
  cases decoding
  cases code

theorem literalInstr_of_fault {kind : Tag LiteralKind} {raw : Bytes} {span : Span} {f : Fault}
    (h : (lowerLiteral kind raw span).outcome = .fault f) : literalInstr kind raw span = .error f := by
  rw [lowerLiteral_eq] at h
  unfold Lowered.ofInstr at h
  split at h
  · cases h
  · next failed =>
    cases h
    exact failed

/-- The fault of an invalid escape is about some bytes between the quotes of its literal, the first of them a
backslash. -/
theorem invalidEscape_in_source {src : Bytes} {tok : Token} (placed : Placed src tok) {kind : LiteralKind} {f : Fault}
    (h : literalInstr (.known kind) tok.text tok.span = .error f) (code : f.code = .invalidEscape) :
    ∃ (off : Nat) (escape : Bytes), f = .user .invalidEscape (escapeSpan tok.span off escape.length)
        ("unknown escape sequence `" ++ escape ++ "`") ∧ escape.head? = some 0x5C ∧
      0 < off ∧ tok.span.start.toNat + off + escape.length < tok.span.stop.toNat ∧
      (src.drop (tok.span.start.toNat + off)).take escape.length = escape := by
  obtain ⟨long, failed⟩ := unescape_of_invalidEscape h code
  obtain ⟨before, rest, n, body, error, rfl⟩ := unescape_error long failed
  obtain ⟨front, last, behind, split, place, closed⟩ := body_in_source placed long
  rw [body] at split closed
  have inside := escapeAt_error_le error
  have size : ((0x5C :: rest).take n).length = n := List.length_take_of_le inside
  refine ⟨before.length + 1, (0x5C :: rest).take n, by rw [size], ?_, Nat.succ_pos _, ?_, ?_⟩
  · obtain ⟨m, rfl⟩ := Nat.exists_eq_succ_of_ne_zero (Nat.ne_of_gt (escapeAt_error_pos error))
    rfl
  · rw [size, ← closed, List.length_append, List.length_cons, place]
    omega
  · have start : tok.span.start.toNat + (before.length + 1) = (front ++ before).length := by
      rw [List.length_append, place]
      omega
    rw [size, start, split, List.append_assoc, ← List.append_assoc front, List.drop_left,
      List.take_append_of_le_length inside]

/-- An invalid escape is pointed at. What is reported lies strictly between the quotes of its literal, in the source it
is what the message quotes, and it starts with a backslash. Its line is that of the literal, and both columns count
from the same place, behind the last line break between tokens. Nothing wraps in computing this. -/
theorem bad_escape_is_pointed_at {src : Bytes} (short : src.length < UInt32.size) {tok : Token}
    (member : tok ∈ tokenize src) {kind : LiteralKind} {f : Fault}
    (faulted : (lowerLiteral (.known kind) tok.text tok.span).outcome = .fault f) (code : f.code = .invalidEscape) :
    tok.span.start < f.span.start ∧ f.span.start < f.span.stop ∧ f.span.stop < tok.span.stop ∧
    f.span.length.toNat = f.span.stop.toNat - f.span.start.toNat ∧
    (∃ escape : Bytes, (src.drop f.span.start.toNat).take (f.span.stop.toNat - f.span.start.toNat) = escape ∧
      escape.head? = some 0x5C ∧ f.message = "unknown escape sequence `" ++ escape ++ "`") ∧
    f.span.line = tok.span.line ∧
    (∃ lineStart ≤ tok.span.start.toNat, lineStart = lastUpTo (breaksBetween src (tokenize src)) tok.span.start.toNat ∧
      tok.span.column.toNat = tok.span.stop.toNat - lineStart ∧
      f.span.column.toNat = f.span.stop.toNat - lineStart) ∧
    ∃ off n, f.span = escapeSpan tok.span off n ∧ FitsWords tok.span off n := by
  have placed := tokenize_placed short member
  have reported := tokenize_reported short member
  obtain ⟨off, escape, rfl, slash, first, last, text⟩ :=
    invalidEscape_in_source placed (literalInstr_of_fault faulted) code
  have some : 0 < escape.length := by
    refine List.length_pos_iff.2 ?_
    rintro rfl
    cases slash
  have before := lastUpTo_le (breaksBetween src (tokenize src)) tok.span.start.toNat
  have column := reported.column
  have fits : FitsWords tok.span off escape.length :=
    ⟨Nat.lt_trans last tok.span.stop.toNat_lt, Nat.le_of_lt last, by omega⟩
  obtain ⟨start, stop, length, place⟩ := fits.escapeSpan_eq
  simp only [Fault.user, UInt32.lt_iff_toNat_lt, start, stop, length, place, Nat.add_sub_cancel_left]
  refine ⟨?_, ?_, last, trivial, ⟨escape, text, slash, rfl⟩, rfl, ⟨_, before, rfl, ?_, ?_⟩, off, _, rfl, fits⟩
  · exact Nat.lt_add_of_pos_right first
  · exact Nat.lt_add_of_pos_right some
  · exact Nat.eq_sub_of_add_eq column
  · omega

/-- Behind a string and a line feed there is `"b\x"`. Its escape is reported from 7 to 9, and both columns count from
behind the line feed. -/
theorem escape_on_second_line_is_pointed_at :
    let src : Bytes := [0x22, 0x61, 0x22, 0x0A, 0x20, 0x22, 0x62, 0x5C, 0x78, 0x22]
    let tok : Token := ⟨.stringLit, ⟨5, 10, 1, 6, 5⟩, [0x22, 0x62, 0x5C, 0x78, 0x22]⟩
    let f : Fault := .user .invalidEscape ⟨7, 9, 1, 5, 2⟩ "unknown escape sequence `\\x`"
    src.length < UInt32.size ∧ tok ∈ tokenize src ∧
      (lowerLiteral (.known .string) tok.text tok.span).outcome = .fault f ∧
      tok.span.start < f.span.start ∧ f.span.stop < tok.span.stop ∧
      ∃ lineStart ≤ tok.span.start.toNat, lineStart = lastUpTo (breaksBetween src (tokenize src)) 5 ∧
        tok.span.column.toNat = 10 - lineStart ∧ f.span.column.toNat = 9 - lineStart := by
  intro src tok f
  have short : src.length < UInt32.size := by decide
  have member : tok ∈ tokenize src := by decide +kernel
  have faulted : (lowerLiteral (.known .string) tok.text tok.span).outcome = .fault f := by decide +kernel
  obtain ⟨opened, _, closed, _, _, _, columns, _⟩ := bad_escape_is_pointed_at short member faulted rfl
  exact ⟨short, member, faulted, opened, closed, columns⟩

end LetStack.Lower
