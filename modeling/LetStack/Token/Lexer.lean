import LetStack.Token.Cursor
import LetStack.Token.Scanner

/-!
The lexer reads tokens off a cursor. Offsets, lines and columns are 32-bit words, and the bytes of a token are cut out
of the source between two of them. Every step is none if it asks for bytes that are not there or does not get on.
-/

namespace LetStack

structure Lexer where
  cursor : Cursor
  /-- Line breaks skipped so far. -/
  line : UInt32 := 0
  /-- The offset behind the last line break. -/
  lastBreak : UInt32 := 0
  deriving DecidableEq, Repr, Inhabited

namespace Lexer
open Token

/-- The lexer in front of a source; none if the offsets of the source are no words. -/
def ofSource? (src : Bytes) : Option Lexer :=
  if src.length < UInt32.size then some { cursor := .ofSource src } else none

/-- The bytes up to the limit. -/
def left (l : Lexer) : Nat := l.cursor.limit.toNat - l.cursor.offset.toNat

/-- The cursor `n` bytes further; none if it does not get on. -/
def move? (l : Lexer) (n : Nat) : Option Cursor :=
  let c := l.cursor.advance (UInt32.ofNat n)
  if l.cursor.offset < c.offset then some c else none

theorem left_lt_of_move? {l : Lexer} {n : Nat} {c : Cursor} (moved : l.move? n = some c) (line lastBreak : UInt32) :
    left { cursor := c, line, lastBreak } < l.left := by
  simp only [move?] at moved
  split at moved
  · next further =>
    obtain rfl := Option.some.inj moved
    have bounded : (l.cursor.advance (UInt32.ofNat n)).offset ≤ l.cursor.limit := by
      show (if _ then _ else _ : UInt32) ≤ _
      split
      · assumption
      · exact UInt32.le_refl _
    rw [UInt32.lt_iff_toNat_lt] at further
    rw [UInt32.le_iff_toNat_le] at bounded
    show l.cursor.limit.toNat - (l.cursor.advance (UInt32.ofNat n)).offset.toNat < l.cursor.limit.toNat - _
    omega
  · cases moved

/-- The lexer in front of the next token. -/
def skipTrivia? (l : Lexer) : Option Lexer :=
  if l.cursor.atEnd then some l
  else
    match l.cursor.rest? with
    | none => none
    | some rest =>
      if 0 < lineBreakLength rest then
        match _ : l.move? (lineBreakLength rest) with
        | none => none
        | some c => skipTrivia? { cursor := c, line := l.line + 1, lastBreak := c.offset }
      else if 0 < blankLength rest then
        match _ : l.move? (blankLength rest) with
        | none => none
        | some c => skipTrivia? { l with cursor := c }
      else some l
termination_by l.left
decreasing_by
  · rename_i moved; exact left_lt_of_move? moved _ _
  · rename_i moved; exact left_lt_of_move? moved _ _

/-- The token from the lexer up to a cursor. Its column counts from the last line break to its end. -/
def tokenTo? (l : Lexer) (kind : Kind) (c : Cursor) : Option Token := do
  let span := c.spanFrom l.cursor.offset
  let text ← c.slice? span.start span.stop
  return { kind, text, span := { span with line := l.line, column := span.stop - l.lastBreak } }

/-- The next token and the lexer behind it, or the lexer at the end of the source. -/
def next? (l : Lexer) : Option (Except Lexer (Token × Lexer)) := do
  let l ← l.skipTrivia?
  if l.cursor.atEnd then return .error l
  let rest ← l.cursor.rest?
  let c ← l.move? (Scanner.measure rest).2
  let tok ← l.tokenTo? (Scanner.measure rest).1 c
  return .ok (tok, { l with cursor := c })

theorem left_le_of_skipTrivia? {l t : Lexer} (h : l.skipTrivia? = some t) : t.left ≤ l.left := by
  fun_induction skipTrivia? l with
  | case1 | case7 => exact Nat.le_of_eq (congrArg left (Option.some.inj h).symm)
  | case2 | case3 | case5 => cases h
  | case4 l _ rest _ _ c moved ih | case6 l _ rest _ _ _ c moved ih =>
    exact Nat.le_trans (ih h) (Nat.le_of_lt (left_lt_of_move? moved _ _))

theorem left_lt_of_next? {l t : Lexer} {tok : Token} (h : l.next? = some (.ok (tok, t))) : t.left < l.left := by
  obtain ⟨s, skipped, h⟩ := Option.bind_eq_some_iff.1 h
  split at h
  · cases h
  obtain ⟨rest, _, h⟩ := Option.bind_eq_some_iff.1 h
  obtain ⟨c, moved, h⟩ := Option.bind_eq_some_iff.1 h
  obtain ⟨tok', _, h⟩ := Option.bind_eq_some_iff.1 h
  cases h
  exact Nat.lt_of_lt_of_le (left_lt_of_move? moved _ _) (left_le_of_skipTrivia? skipped)

/-- The remaining tokens and the lexer at the end of the source. -/
def run? (l : Lexer) : Option (List Token × Lexer) :=
  match _ : l.next? with
  | none => none
  | some (.error last) => some ([], last)
  | some (.ok (tok, t)) => (run? t).map fun r => (tok :: r.1, r.2)
termination_by l.left
decreasing_by rename_i h; exact left_lt_of_next? h

/-- At most `n` of the remaining tokens, and the lexer behind them. -/
def take? : Nat → Lexer → Option (List Token × Lexer)
  | 0, l => some ([], l)
  | n + 1, l =>
    match l.next? with
    | none => none
    | some (.error last) => some ([], last)
    | some (.ok (tok, t)) => (take? n t).map fun r => (tok :: r.1, r.2)

def tokenize? (src : Bytes) : Option (List Token) := (ofSource? src).bind fun l => l.run?.map Prod.fst

end Lexer

end LetStack
