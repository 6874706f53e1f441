import LetStack.Token.Lexer
import LetStack.Proofs.Token.Lines
import LetStack.Proofs.Token.Movement
import LetStack.Proofs.Token.Scanned

/-!
`Lexer.next?` moves a cursor over words and slices the text of a token out of the source; `Scanner.next?` has the
unread bytes themselves and counts without bound. On a source of less than 2^32 bytes a lexer and a scanner at the
same offset stay so, each move of the cursor gets on, and each slice lies inside the source (`Reads.next?`). So
`tokenize?` gives the tokens of `tokenize` (`tokenize?_eq`).
-/

namespace LetStack

theorem Token.blankLength_le (x : Bytes) : blankLength x ≤ x.length := by
  rcases Nat.eq_zero_or_pos (blankLength x) with none | some
  · rw [none]
    exact Nat.zero_le _
  · obtain ⟨c, rest, rfl, _, length⟩ := exists_blank some
    rw [length, List.length_append]
    exact Nat.le_add_right _ _

namespace Lexer
open Token

/-! ## One step -/

theorem run?_of_error {l t : Lexer} (found : l.next? = some (.error t)) : l.run? = some ([], t) := by
  rw [run?]
  split
  all_goals
    rename_i same
    rw [found] at same
    cases same
  rfl

theorem run?_of_ok {l t : Lexer} {tok : Token} (found : l.next? = some (.ok (tok, t))) :
    l.run? = t.run?.map fun r => (tok :: r.1, r.2) := by
  rw [run?]
  split
  all_goals
    rename_i same
    rw [found] at same
    cases same
  rfl

theorem skipTrivia?_of_break {l : Lexer} {rest : Bytes} {c : Cursor} (more : l.cursor.atEnd = false)
    (ahead : l.cursor.rest? = some rest) (some : 0 < lineBreakLength rest)
    (moved : l.move? (lineBreakLength rest) = .some c) :
    l.skipTrivia? = skipTrivia? { cursor := c, line := l.line + 1, lastBreak := c.offset } := by
  rw [skipTrivia?, more, if_neg Bool.false_ne_true]
  simp only [ahead, if_pos some]
  split
  all_goals
    rename_i same
    rw [moved] at same
    cases same
  rfl

theorem skipTrivia?_of_blank {l : Lexer} {rest : Bytes} {c : Cursor} (more : l.cursor.atEnd = false)
    (ahead : l.cursor.rest? = some rest) (noBreak : ¬0 < lineBreakLength rest) (some : 0 < blankLength rest)
    (moved : l.move? (blankLength rest) = .some c) : l.skipTrivia? = skipTrivia? { l with cursor := c } := by
  rw [skipTrivia?, more, if_neg Bool.false_ne_true]
  simp only [ahead, if_neg noBreak, if_pos some]
  split
  all_goals
    rename_i same
    rw [moved] at same
    cases same
  rfl

/-! ## At the same place -/

/-- A lexer and a scanner at the same place of a source. -/
structure Reads (src : Bytes) (l : Lexer) (s : Scanner) : Prop where
  stands : s.StandsIn src
  source : l.cursor.src = src.toArray
  limit : l.cursor.limit.toNat = src.length
  offset : l.cursor.offset.toNat = s.offset
  line : l.line = UInt32.ofNat s.line
  lastBreak : l.lastBreak = UInt32.ofNat s.lineStart

theorem reads_ofSource {src : Bytes} (short : src.length < UInt32.size) :
    Reads src { cursor := .ofSource src } (.ofSource src) where
  stands := ⟨[], rfl, rfl⟩
  source := rfl
  limit := UInt32.toNat_ofNat_of_lt' short
  offset := rfl
  line := rfl
  lastBreak := rfl

namespace Reads
variable {src : Bytes} {l : Lexer} {s : Scanner} (h : Reads src l s)
include h

theorem offset_le : l.cursor.offset.toNat ≤ src.length := by
  rw [h.offset, ← h.stands.length]
  exact Nat.le_add_right _ _

theorem slice? {first last : UInt32} (order : first ≤ last) (inside : last.toNat ≤ src.length) :
    l.cursor.slice? first last = some ((src.take last.toNat).drop first.toNat) := by
  rw [Cursor.slice?, h.source, if_pos ⟨order, inside⟩]
  simp [List.drop_take]

theorem rest? : l.cursor.rest? = some s.rest := by
  have order : l.cursor.offset ≤ l.cursor.limit := by
    rw [UInt32.le_iff_toNat_le, h.limit]
    exact h.offset_le
  rw [Cursor.rest?, h.slice? order (Nat.le_of_eq h.limit), h.limit, h.offset, List.take_length]
  obtain ⟨before, rfl, place⟩ := h.stands
  rw [← place, List.drop_left]

theorem atEnd_iff : l.cursor.atEnd = true ↔ s.rest = [] := by
  have place := h.stands.length
  rw [Cursor.atEnd, decide_eq_true_iff, UInt32.le_iff_toNat_le, h.limit, h.offset, ← List.length_eq_zero_iff]
  omega

theorem not_atEnd (more : s.rest ≠ []) : l.cursor.atEnd = false := Bool.eq_false_iff.2 (mt h.atEnd_iff.1 more)

theorem move? {n : Nat} (positive : 0 < n) (inside : n ≤ s.rest.length) :
    ∃ c, l.move? n = some c ∧ Reads src { l with cursor := c } (s.advance n) := by
  have place := h.stands.length
  have short : src.length < UInt32.size := h.limit ▸ l.cursor.limit.toNat_lt_size
  have size : (UInt32.ofNat n).toNat = n := UInt32.toNat_ofNat_of_lt' (by omega)
  have further : (l.cursor.advance (UInt32.ofNat n)).offset.toNat = s.offset + n := by
    rw [Cursor.toNat_offset_advance_of_fits (by rw [size, h.offset]; omega), size, h.offset, h.limit]
    omega
  refine ⟨l.cursor.advance (UInt32.ofNat n), if_pos ?_, h.stands.advance n, h.source, h.limit, ?_, h.line, h.lastBreak⟩
  · rw [UInt32.lt_iff_toNat_lt, further, h.offset]
    omega
  · show _ = s.offset + (s.rest.take n).length
    rw [further, List.length_take_of_le inside]

theorem offset_eq : l.cursor.offset = UInt32.ofNat s.offset := by
  rw [← h.offset, UInt32.ofNat_toNat]

theorem breakLine {n : Nat} {c : Cursor} (moved : Reads src { l with cursor := c } (s.advance n)) :
    Reads src { cursor := c, line := l.line + 1, lastBreak := c.offset } (s.breakLine n) where
  stands := moved.stands
  source := moved.source
  limit := moved.limit
  offset := moved.offset
  line := by
    rw [h.line]
    exact UInt32.ofNat_add .. |>.symm
  lastBreak := moved.offset_eq

theorem skipTrivia? : ∃ t, l.skipTrivia? = some t ∧ Reads src t s.skipTrivia := by
  fun_induction Scanner.skipTrivia s generalizing l with
  | case1 s ended =>
    refine ⟨l, ?_, h⟩
    rw [Lexer.skipTrivia?, if_pos (h.atEnd_iff.2 ended)]
  | case2 s more some ih =>
    obtain ⟨c, moved, reads⟩ := h.move? some (lineBreakLength_le s.rest)
    obtain ⟨t, skipped, behind⟩ := ih (h.breakLine reads)
    exact ⟨t, (skipTrivia?_of_break (h.not_atEnd more) h.rest? some moved).trans skipped, behind⟩
  | case3 s more none some ih =>
    obtain ⟨c, moved, reads⟩ := h.move? some (blankLength_le s.rest)
    obtain ⟨t, skipped, behind⟩ := ih reads
    exact ⟨t, (skipTrivia?_of_blank (h.not_atEnd more) h.rest? none some moved).trans skipped, behind⟩
  | case4 s more none blank =>
    refine ⟨l, ?_, h⟩
    rw [Lexer.skipTrivia?, h.not_atEnd more, if_neg Bool.false_ne_true]
    simp only [h.rest?, if_neg none, if_neg blank]

theorem tokenTo? {n : Nat} {c : Cursor} (kind : Kind) (moved : Reads src { l with cursor := c } (s.advance n)) :
    l.tokenTo? kind c = some (s.tokenOf kind n) := by
  have stop : c.offset.toNat = s.offset + (s.rest.take n).length := moved.offset
  have order : l.cursor.offset ≤ c.offset := by
    rw [UInt32.le_iff_toNat_le, h.offset, stop]
    exact Nat.le_add_right _ _
  have text : (src.take c.offset.toNat).drop l.cursor.offset.toNat = s.rest.take n := by
    obtain ⟨before, rfl, place⟩ := h.stands
    rw [stop, h.offset, ← place, List.take_length_add_append, List.drop_left, List.length_take,
      ← List.take_eq_take_min]
  have cut : c.slice? l.cursor.offset c.offset = some (s.rest.take n) := by
    rw [← text]
    exact moved.slice? order moved.offset_le
  unfold Lexer.tokenTo? Cursor.spanFrom
  simp only [cut]
  rw [h.offset_eq, moved.offset_eq, h.line, h.lastBreak]
  rfl

theorem next?_of_none (ended : s.next? = none) :
    ∃ t, l.next? = some (.error t) ∧ Reads src t s.skipTrivia := by
  obtain ⟨t, skipped, reads⟩ := h.skipTrivia?
  refine ⟨t, ?_, reads⟩
  have atEnd := reads.atEnd_iff.2 (Scanner.next?_eq_none_iff.1 ended)
  simp [Lexer.next?, skipped, atEnd]

theorem next?_of_some {tok : Token} {behind : Scanner} (found : s.next? = some (tok, behind)) :
    ∃ t, l.next? = some (.ok (tok, t)) ∧ Reads src t behind := by
  obtain ⟨t, skipped, reads⟩ := h.skipTrivia?
  obtain ⟨more, kind, n, measured, rfl, rfl⟩ := Scanner.next?_eq_some found
  obtain ⟨noBreak, noBlank⟩ := s.skipTrivia_stops more
  have positive := Scanner.measure_pos s.skipTrivia.rest
  have inside := measure_le more noBreak noBlank
  rw [measured] at positive inside
  obtain ⟨c, moved, further⟩ := reads.move? positive inside
  refine ⟨{ t with cursor := c }, ?_, further⟩
  simp [Lexer.next?, skipped, reads.not_atEnd more, reads.rest?, measured, moved, reads.tokenTo? kind further]

theorem run? : ∃ t, l.run? = some (s.run.1, t) ∧ Reads src t s.run.2 := by
  fun_induction Scanner.run s generalizing l with
  | case1 s ended =>
    obtain ⟨t, found, reads⟩ := h.next?_of_none ended
    exact ⟨t, run?_of_error found, reads⟩
  | case2 s tok behind next toks last rest ih =>
    obtain ⟨t, found, reads⟩ := h.next?_of_some next
    obtain ⟨t', ran, reads'⟩ := ih reads
    rw [rest] at ran reads'
    refine ⟨t', ?_, reads'⟩
    rw [run?_of_ok found, ran]
    rfl

end Reads

/-- Every source whose offsets are words has its tokens: no slice is out of range, and the lexer always gets on. -/
theorem tokenize?_eq {src : Bytes} (short : src.length < UInt32.size) : tokenize? src = some (tokenize src) := by
  obtain ⟨t, ran, _⟩ := (reads_ofSource short).run?
  rw [tokenize?, ofSource?, if_pos short, Option.bind_some, ran]
  rfl

end Lexer

end LetStack
